import TapeLang.Definition.Arguments
import TapeLang.Definition.Declaration
import TapeLang.Definition.Dictionary
import TapeLang.Instruction
import TapeLang.Token.Lexer

/-! Expansion of a token list. Declarations enter the dictionary where they stand, macro and
procedure calls are replaced by their bodies, and what remains is fed to a consumer item by
item, before anything behind it is looked at. An item made inside an expansion carries the
place of the outermost call. -/
namespace TapeLang

/-- An element of the expanded stream. -/
inductive Item where
  | plain (text : Text) (location : Location)
  | call (definition : Definition) (args : List Text) (location : Location)
deriving DecidableEq, Repr

namespace Item

def location : Item → Location
  | plain _ location | call _ _ location => location

def text : Item → Text
  | plain text _ => text
  | call definition _ _ => definition.name

end Item

/-- The source that tokens come from: its name, its stripped lines, and how deep expansions
may nest. -/
structure Source where
  file : Text
  statements : Array Text
  limit : Int

namespace Source

def ofLines (file : Text) (lines : List Text) (limit : Int) : Source :=
  ⟨file, (lines.map Text.strip).toArray, limit⟩

def ofText (file text : Text) (limit : Int) : Source := ofLines file (Text.lines text) limit

/-- The place of a token, with the stripped line of its number if the source has one. -/
def locate (s : Source) (t : Token) : Location :=
  { file := s.file, line := t.line, column := t.column
    statement := if t.line < 1 then [] else (s.statements[(t.line - 1).toNat]?).getD [] }

end Source

/-- The dictionary as far as declarations were met, and the state of the consumer. -/
structure Progress (σ : Type) where
  dictionary : Dictionary
  consumed : σ

/-- A reading keeps its progress when it fails. -/
abbrev Reading (σ : Type) := EStateM SourceError (Progress σ)

namespace Expansion

variable {σ : Type}

/-- Gives an item to the consumer. -/
def feed (consume : σ → Item → Except SourceError σ) (item : Item) : Reading σ Unit := do
  let p ← get
  match consume p.consumed item with
  | .ok consumed => set { p with consumed }
  | .error e => throw e

/-- Enters a declaration into the dictionary. -/
def declare (kind : DefinitionKind) (value : Text) (location : Location) : Reading σ Unit := do
  let p ← get
  match readDeclaration kind value location >>= p.dictionary.declare with
  | .ok dictionary => set { p with dictionary }
  | .error e => throw e

/-- Expands the tokens of a body: the names being expanded, the place of the outermost
call, and the tokens. -/
abbrev Descend (σ : Type) := List Text → Location → List Token → Reading σ Unit

/-- The tokens that a macro or procedure call stands for. -/
def bodyTokens (file : Text) (d : Definition) (args : List Text) (location : Location) :
    Except SourceError (List Token) :=
  match d.instantiate args with
  | .error e => .error { e with location := some location }
  | .ok text => tokenize file text

/-- A call of a definition by name. Without `descend` the limit of nesting is reached. -/
def expandCall (source : Source) (consume : σ → Item → Except SourceError σ)
    (descend : Option (Descend σ)) (chain : List Text) (d : Definition) (args : List Text)
    (location : Location) : Reading σ Unit :=
  if d.kind = .functionForm then
    if args.length = d.params.length then feed consume (.call d args location)
    else throw ⟨d.arityFault args, some location⟩
  else if d.kind = .procedureForm ∧ d.name ∈ chain then
    throw ⟨.recursiveProcedure d.name, some location⟩
  else match descend with
    | none => throw ⟨.expansionTooDeep d.name source.limit, some location⟩
    | some descend =>
      match bodyTokens source.file d args location with
      | .error e => throw e
      | .ok tokens => descend (d.name :: chain) location tokens

def readWord (source : Source) (consume : σ → Item → Except SourceError σ)
    (descend : Option (Descend σ)) (chain : List Text) (word : Text) (location : Location) :
    Reading σ Unit := do
  match splitCall? word with
  | none => throw ⟨.invalidInstruction word, some location⟩
  | some (name, raw) =>
    match (← get).dictionary.find? name, raw with
    | none, none => feed consume (.plain name location)
    | none, some _ => throw ⟨.undefinedCall name, some location⟩
    | some d, raw =>
      expandCall source consume descend chain d (argumentList (raw.getD [])) location

/-- The tokens of one level, up to the end of the text. The place of an item is that of the
outermost call, or of its own token where there is none. -/
def expandLevel (source : Source) (consume : σ → Item → Except SourceError σ)
    (descend : Option (Descend σ)) (chain : List Text) (origin : Option Location) :
    List Token → Reading σ Unit
  | [] => pure ()
  | token :: rest => do
    let location := origin.getD (source.locate token)
    match token.kind with
    | .endOfText => pure ()
    | .declaration kind =>
      declare kind token.value location
      expandLevel source consume descend chain origin rest
    | .word =>
      readWord source consume descend chain token.value location
      expandLevel source consume descend chain origin rest
    | .symbol =>
      feed consume (.plain token.value location)
      expandLevel source consume descend chain origin rest

/-- Expansion with a budget of further levels. -/
def expandWithin (source : Source) (consume : σ → Item → Except SourceError σ) :
    Nat → List Text → Option Location → List Token → Reading σ Unit
  | 0, chain, origin, tokens => expandLevel source consume none chain origin tokens
  | budget + 1, chain, origin, tokens =>
    expandLevel source consume
      (some fun chain location tokens =>
        expandWithin source consume budget chain (some location) tokens)
      chain origin tokens

end Expansion

/-- Expands a token list; a limit below one allows no expansion at all. -/
def Source.expand {σ : Type} (source : Source) (consume : σ → Item → Except SourceError σ)
    (tokens : List Token) : Reading σ Unit :=
  Expansion.expandWithin source consume source.limit.toNat [] none tokens

end TapeLang
