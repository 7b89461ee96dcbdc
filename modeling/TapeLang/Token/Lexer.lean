import TapeLang.Token

/-! The lexer, an automaton over the code points of a text. Every line feed brings it back
to the start of a token, so lines are read independently of each other. -/
namespace TapeLang

/-- A place in a text, both parts counted from one. -/
structure Position where
  line : Nat := 1
  column : Nat := 1
deriving DecidableEq, Repr

def Position.after (p : Position) (c : Char) : Position :=
  if c = '\n' then ⟨p.line + 1, 1⟩ else ⟨p.line, p.column + 1⟩

namespace Lexer

/-- What the lexer is inside of. Collected text is kept newest first. -/
inductive Mode where
  | start
  | comment
  | declaration (kind : DefinitionKind) (origin : Position) (collected : Text)
  | word (origin : Position) (collected : Text)
  | arguments (origin : Position) (collected : Text) (depth : Nat)
deriving DecidableEq, Repr

/-- The mode, the place of the next character and the tokens so far, newest first. -/
structure State where
  mode : Mode := .start
  position : Position := {}
  tokens : List Token := []
deriving DecidableEq, Repr

def isSkipped (c : Char) : Bool := c = ' ' || c = '\t' || c = '\r' || c = '\n'

/-- The text of a declaration: the line up to a comment, without blanks at its end. -/
def declarationText (line : Text) : Text := Text.stripEnd (line.takeWhile (· ≠ '#'))

def token (kind : TokenKind) (value : Text) (p : Position) : Token :=
  ⟨kind, value, p.line, p.column⟩

def wordToken (origin : Position) (collected : Text) : Token :=
  token .word collected.reverse origin

def declarationToken (kind : DefinitionKind) (origin : Position) (collected : Text) : Token :=
  token (.declaration kind) (declarationText collected.reverse) origin

/-- A character where a token may start: the tokens it completes and the mode after it. -/
def begin (p : Position) (c : Char) : List Token × Mode :=
  if isSkipped c then ([], .start)
  else if c = '#' then ([], .comment)
  else match DefinitionKind.ofSigil? c with
    | some kind => ([], .declaration kind p [])
    | none =>
      if Text.isLetter c then ([], .word p [c])
      else ([token .symbol [c] p], .start)

def unterminated (file : Text) (origin : Position) : SourceError :=
  ⟨.unterminatedArguments file origin.line origin.column, none⟩

/-- One character in a mode: the tokens it completes, newest first, and the mode after it. -/
def Mode.read (file : Text) (p : Position) (c : Char) :
    Mode → Except SourceError (List Token × Mode)
  | .start => .ok (begin p c)
  | .comment => .ok ([], if c = '\n' then .start else .comment)
  | .declaration kind origin collected =>
    .ok (if c = '\n' then ([declarationToken kind origin collected], .start)
      else ([], .declaration kind origin (c :: collected)))
  | .word origin collected =>
    .ok (if Text.isWord c then ([], .word origin (c :: collected))
      else if c = '(' then ([], .arguments origin (c :: collected) 1)
      else ((begin p c).1 ++ [wordToken origin collected], (begin p c).2))
  | .arguments origin collected depth =>
    if c = '\n' then .error (unterminated file origin)
    else if c = '(' then .ok ([], .arguments origin (c :: collected) (depth + 1))
    else if c = ')' then
      .ok (if depth ≤ 1 then ([wordToken origin (c :: collected)], .start)
        else ([], .arguments origin (c :: collected) (depth - 1)))
    else .ok ([], .arguments origin (c :: collected) depth)

/-- The token that the end of the text completes. -/
def Mode.finish (file : Text) : Mode → Except SourceError (List Token)
  | .start | .comment => .ok []
  | .declaration kind origin collected => .ok [declarationToken kind origin collected]
  | .word origin collected => .ok [wordToken origin collected]
  | .arguments origin _ _ => .error (unterminated file origin)

def State.read (file : Text) (s : State) (c : Char) : Except SourceError State :=
  match s.mode.read file s.position c with
  | .error e => .error e
  | .ok (completed, mode) => .ok ⟨mode, s.position.after c, completed ++ s.tokens⟩

def State.finish (file : Text) (s : State) : Except SourceError (List Token) :=
  match s.mode.finish file with
  | .error e => .error e
  | .ok completed =>
    .ok (token .endOfText [] s.position :: (completed ++ s.tokens)).reverse

end Lexer

/-- The tokens of a text, closed by the end-of-text token. -/
def tokenize (file text : Text) : Except SourceError (List Token) :=
  match text.foldlM (Lexer.State.read file) {} with
  | .error e => .error e
  | .ok s => s.finish file

end TapeLang
