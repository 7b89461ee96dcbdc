import TapeLang.Instruction
import TapeLang.Proofs.Definition.Arguments
import TapeLang.Token.Lexer

/-! What the lexer makes. Every token of a text has the shape that the readers behind the
lexer rely on; and texts that start and end between tokens are read one after another. -/
namespace TapeLang

/-- Names that a call can begin with: a letter, and word characters behind it. -/
structure IsCallName (t : Text) : Prop where
  first : t.head?.any Text.isLetter = true
  word : ∀ c ∈ t, Text.isWord c = true

/-- A call word: a name alone, or with a balanced list of arguments on one line. -/
inductive IsCallWord : Text → Prop where
  | name {name : Text} : IsCallName name → IsCallWord name
  | arguments {name raw : Text} : IsCallName name → Text.Balanced raw → '\n' ∉ raw →
      IsCallWord (name ++ '(' :: raw ++ [')'])

namespace IsCallName

theorem ne_nil {name : Text} (legal : IsCallName name) : name ≠ [] := by
  rintro rfl
  exact absurd legal.first (by simp)

theorem takeWhile_append {name : Text} (legal : IsCallName name) (rest : Text) :
    (name ++ '(' :: rest).takeWhile Text.isWord = name := by
  rw [List.takeWhile_append_of_pos legal.word, List.takeWhile_cons_of_neg (by decide),
    List.append_nil]

theorem dropWhile_append {name : Text} (legal : IsCallName name) (rest : Text) :
    (name ++ '(' :: rest).dropWhile Text.isWord = '(' :: rest := by
  rw [List.dropWhile_append_of_pos legal.word, List.dropWhile_cons_of_neg (by decide)]

end IsCallName

theorem splitCall?_name {name : Text} (legal : IsCallName name) :
    splitCall? name = some (name, none) := by
  have taken : name.takeWhile Text.isWord = name := by
    simpa using @List.takeWhile_append_of_pos _ _ _ [] legal.word
  have dropped : name.dropWhile Text.isWord = [] := by
    simpa using @List.dropWhile_append_of_pos _ _ _ [] legal.word
  simp [splitCall?, taken, dropped, legal.ne_nil]

theorem splitCall?_arguments {name : Text} (legal : IsCallName name) (raw : Text) :
    splitCall? (name ++ '(' :: raw ++ [')']) = some (name, some raw) := by
  rw [List.append_assoc, List.cons_append]
  simp [splitCall?, legal.takeWhile_append, legal.dropWhile_append, legal.ne_nil]

namespace Token

/-- The shape of the tokens that the lexer makes. -/
def Sound (t : Token) : Prop :=
  match t.kind with
  | .word => IsCallWord t.value
  | .declaration _ => '\n' ∉ t.value ∧ '#' ∉ t.value
  | .symbol | .endOfText => True

/-- A token without its place. -/
def spelling (t : Token) : TokenKind × Text := (t.kind, t.value)

end Token

namespace Lexer

/-- What the lexer has collected is the beginning of a sound token. -/
def Mode.Sound : Mode → Prop
  | .start | .comment => True
  | .declaration _ _ collected => '\n' ∉ collected
  | .word _ collected => IsCallName collected.reverse
  | .arguments _ collected depth => ∃ name inner level,
      collected.reverse = name ++ '(' :: inner ∧ IsCallName name ∧ '\n' ∉ inner ∧
      depth = level + 1 ∧ Text.nesting (fun _ => false) 0 inner = some level

theorem isWord_of_isLetter {c : Char} (letter : Text.isLetter c = true) :
    Text.isWord c = true := by
  simp [Text.isWord, Text.isAlphanumeric, letter]

theorem begin_sound (p : Position) (c : Char) :
    (∀ t ∈ (begin p c).1, t.Sound) ∧ (begin p c).2.Sound := by
  unfold begin
  split
  · exact ⟨by simp, trivial⟩
  · split
    · exact ⟨by simp, trivial⟩
    · split
      · exact ⟨by simp, List.not_mem_nil⟩
      · split
        · rename_i letter
          refine ⟨by simp, by simpa using letter, ?_⟩
          intro d member
          obtain rfl : d = c := by simpa using member
          exact isWord_of_isLetter letter
        · refine ⟨?_, trivial⟩
          intro t member
          obtain rfl := List.mem_singleton.mp member
          trivial

theorem declarationToken_sound {collected : Text} (oneLine : '\n' ∉ collected)
    (kind : DefinitionKind) (origin : Position) :
    (declarationToken kind origin collected).Sound := by
  have kept {c : Char} (member : c ∈ declarationText collected.reverse) :
      c ∈ collected.reverse.takeWhile (· ≠ '#') := by
    obtain ⟨blanks, -, same⟩ := Text.exists_blank_suffix (collected.reverse.takeWhile (· ≠ '#'))
    rw [same]
    exact List.mem_append_left _ member
  constructor
  · intro member
    have := List.takeWhile_subset _ (kept member)
    exact oneLine (by simpa using this)
  · intro member
    have := List.all_eq_true.mp List.all_takeWhile _ (kept member)
    simp at this

theorem wordToken_sound {collected : Text} (word : IsCallWord collected.reverse)
    (origin : Position) : (wordToken origin collected).Sound := word

/-- One character keeps what the lexer has made and collected sound. -/
theorem Mode.read_sound {file : Text} {p : Position} {c : Char} {mode after : Mode}
    {completed : List Token} (sound : mode.Sound)
    (read : mode.read file p c = .ok (completed, after)) :
    (∀ t ∈ completed, t.Sound) ∧ after.Sound := by
  cases mode with
  | start =>
    have sound := begin_sound p c
    rw [show begin p c = (completed, after) from Except.ok.inj read] at sound
    exact sound
  | comment =>
    cases read
    refine ⟨by simp, ?_⟩
    split <;> trivial
  | declaration kind origin collected =>
    have same := Except.ok.inj read
    split at same
    · cases same
      refine ⟨?_, trivial⟩
      intro t member
      obtain rfl := List.mem_singleton.mp member
      exact declarationToken_sound sound kind origin
    · rename_i inLine
      cases same
      refine ⟨by simp, ?_⟩
      intro member
      rcases List.mem_cons.mp member with same | earlier
      · exact inLine same.symm
      · exact sound earlier
  | word origin collected =>
    have same := Except.ok.inj read
    split at same
    · rename_i word
      cases same
      refine ⟨by simp, ?_, ?_⟩
      · have first := sound.first
        rw [List.reverse_cons]
        cases reversed : collected.reverse with
        | nil => exact absurd reversed sound.ne_nil
        | cons d rest => simpa [reversed] using first
      · intro d member
        rw [List.reverse_cons, List.mem_append, List.mem_singleton] at member
        rcases member with earlier | rfl
        · exact sound.word d earlier
        · exact word
    · split at same
      · rename_i opens
        cases same
        refine ⟨by simp, collected.reverse, [], 0, ?_, sound, by simp, rfl, rfl⟩
        rw [opens, List.reverse_cons]
      · cases same
        refine ⟨?_, (begin_sound p c).2⟩
        intro t member
        rcases List.mem_append.mp member with begun | ended
        · exact (begin_sound p c).1 t begun
        · obtain rfl := List.mem_singleton.mp ended
          exact wordToken_sound (.name sound) origin
  | arguments origin collected depth =>
    obtain ⟨name, inner, level, same, legal, oneLine, rfl, nested⟩ := sound
    simp only [Mode.read] at read
    have longer : (c :: collected).reverse = name ++ '(' :: (inner ++ [c]) := by
      rw [List.reverse_cons, same, List.append_assoc, List.cons_append]
    split at read
    · cases read
    · rename_i inLine
      have extended : '\n' ∉ inner ++ [c] := by
        simp [oneLine, Ne.symm inLine]
      split at read
      · rename_i opens
        cases read
        refine ⟨by simp, name, inner ++ [c], level + 1, longer, legal, extended, rfl, ?_⟩
        rw [Text.nesting_append, nested, opens]
        rfl
      · split at read
        · rename_i closes
          split at read
          · rename_i outermost
            cases read
            obtain rfl : level = 0 := by omega
            refine ⟨?_, trivial⟩
            intro t member
            obtain rfl := List.mem_singleton.mp member
            refine wordToken_sound ?_ origin
            rw [longer, closes, ← List.cons_append, ← List.append_assoc]
            exact .arguments legal nested oneLine
          · rename_i inside
            cases read
            obtain ⟨outer, rfl⟩ : ∃ outer, level = outer + 1 := ⟨level - 1, by omega⟩
            refine ⟨by simp, name, inner ++ [c], outer, longer, legal, extended, rfl, ?_⟩
            rw [Text.nesting_append, nested, closes]
            rfl
        · rename_i opens closes
          cases read
          refine ⟨by simp, name, inner ++ [c], level, longer, legal, extended, rfl, ?_⟩
          rw [Text.nesting_append, nested]
          simp [Text.nesting, opens, closes]

section

variable {inMode : Mode → Prop} {ofToken : Token → Prop} {ofChar : Char → Prop}

/-- One character keeps a property of modes and completes tokens with a property. -/
def Keeps (inMode : Mode → Prop) (ofToken : Token → Prop) (ofChar : Char → Prop) : Prop :=
  ∀ {file : Text} {p : Position} {c : Char} {mode after : Mode} {completed : List Token},
    ofChar c → inMode mode → mode.read file p c = .ok (completed, after) →
    (∀ t ∈ completed, ofToken t) ∧ inMode after

theorem foldlM_read_keeps (keeps : Keeps inMode ofToken ofChar) {file text : Text}
    {s after : State} (chars : ∀ c ∈ text, ofChar c)
    (start : inMode s.mode ∧ ∀ t ∈ s.tokens, ofToken t)
    (read : text.foldlM (State.read file) s = .ok after) :
    inMode after.mode ∧ ∀ t ∈ after.tokens, ofToken t := by
  induction text generalizing s with
  | nil =>
    cases read
    exact start
  | cons c rest ih =>
    rw [List.foldlM_cons] at read
    cases one : s.mode.read file s.position c with
    | error e => simp only [State.read, one, bind, Except.bind] at read; cases read
    | ok result =>
      obtain ⟨completed, mode⟩ := result
      simp only [State.read, one, bind, Except.bind] at read
      have step := keeps (chars c List.mem_cons_self) start.1 one
      refine ih (fun d member => chars d (List.mem_cons_of_mem _ member)) ⟨step.2, ?_⟩ read
      intro t member
      rcases List.mem_append.mp member with new | old
      · exact step.1 t new
      · exact start.2 t old

/-- What is kept from the start of a text on holds of all its tokens, if the end of the text
keeps it too. -/
theorem forall_mem_tokenize (keeps : Keeps inMode ofToken ofChar) {file text : Text}
    {tokens : List Token} (chars : ∀ c ∈ text, ofChar c) (start : inMode .start)
    (ends : ∀ {mode completed}, inMode mode → mode.finish file = .ok completed →
      ∀ t ∈ completed, ofToken t)
    (last : ∀ p, ofToken (token .endOfText [] p)) (lexed : tokenize file text = .ok tokens) :
    ∀ t ∈ tokens, ofToken t := by
  unfold tokenize at lexed
  split at lexed
  · cases lexed
  · rename_i s read
    obtain ⟨mode, made⟩ := foldlM_read_keeps keeps (s := {}) chars ⟨start, by simp⟩ read
    unfold State.finish at lexed
    split at lexed
    · cases lexed
    · rename_i completed finished
      cases lexed
      intro t member
      rw [List.mem_reverse, List.mem_cons, List.mem_append] at member
      rcases member with rfl | final | earlier
      · exact last s.position
      · exact ends mode finished t final
      · exact made t earlier

end

theorem Mode.finish_sound {file : Text} {mode : Mode} {completed : List Token}
    (sound : mode.Sound) (finished : mode.finish file = .ok completed) :
    ∀ t ∈ completed, t.Sound := by
  intro t member
  cases mode with
  | start | comment =>
    cases finished
    cases member
  | declaration kind origin collected =>
    cases finished
    obtain rfl := List.mem_singleton.mp member
    exact declarationToken_sound sound kind origin
  | word origin collected =>
    cases finished
    obtain rfl := List.mem_singleton.mp member
    exact wordToken_sound (.name sound) origin
  | arguments origin collected depth => cases finished

end Lexer

open Lexer in
/-- Every token of a text is sound. -/
theorem tokenize_sound {file text : Text} {tokens : List Token}
    (lexed : tokenize file text = .ok tokens) : ∀ t ∈ tokens, t.Sound := by
  have keeps : Keeps Mode.Sound Token.Sound fun _ => True := fun _ => Mode.read_sound
  exact forall_mem_tokenize keeps (fun _ _ => trivial) trivial Mode.finish_sound
    (fun _ => trivial) lexed

namespace Lexer

/-- A text that is read from between two tokens to between two tokens, and the tokens in it
without their places. -/
def Lexes (text : Text) (spelled : List (TokenKind × Text)) : Prop :=
  ∀ (file : Text) (p : Position) (tokens : List Token), ∃ q new,
    text.foldlM (State.read file) ⟨.start, p, tokens⟩ = .ok ⟨.start, q, new ++ tokens⟩ ∧
    new.reverse.map Token.spelling = spelled

theorem foldlM_read_cons {file : Text} {s : State} {c : Char} {completed : List Token}
    {mode : Mode} (read : s.mode.read file s.position c = .ok (completed, mode)) (rest : Text) :
    (c :: rest).foldlM (State.read file) s =
      rest.foldlM (State.read file) ⟨mode, s.position.after c, completed ++ s.tokens⟩ := by
  simp only [List.foldlM_cons, State.read, read, bind, Except.bind]

theorem foldlM_read_append {file : Text} {s t : State} {a : Text}
    (read : a.foldlM (State.read file) s = .ok t) (b : Text) :
    (a ++ b).foldlM (State.read file) s = b.foldlM (State.read file) t := by
  rw [List.foldlM_append, read]
  rfl

namespace Lexes

variable {a b : Text} {first second : List (TokenKind × Text)}

theorem nil : Lexes [] [] := fun _ p _ => ⟨p, [], rfl, rfl⟩

theorem append (readA : Lexes a first) (readB : Lexes b second) :
    Lexes (a ++ b) (first ++ second) := by
  intro file p tokens
  obtain ⟨q, new, read, spelled⟩ := readA file p tokens
  obtain ⟨r, newer, readRest, spelledRest⟩ := readB file q (new ++ tokens)
  refine ⟨r, newer ++ new, ?_, ?_⟩
  · rw [foldlM_read_append read, readRest, List.append_assoc]
  · rw [List.reverse_append, List.map_append, spelled, spelledRest]

theorem newline : Lexes ['\n'] [] := fun _ p _ => ⟨p.after '\n', [], rfl, rfl⟩

theorem symbol {c : Char} (alone : ∀ p, begin p c = ([token .symbol [c] p], .start)) :
    Lexes [c] [(.symbol, [c])] := by
  intro file p tokens
  refine ⟨p.after c, [token .symbol [c] p], ?_, rfl⟩
  rw [foldlM_read_cons (s := ⟨.start, p, tokens⟩) (congrArg Except.ok (alone p))]
  rfl

theorem flatMap {α : Type} {items : List α} {f : α → Text}
    {g : α → List (TokenKind × Text)} (each : ∀ x ∈ items, Lexes (f x) (g x)) :
    Lexes (items.flatMap f) (items.flatMap g) := by
  induction items with
  | nil => exact .nil
  | cons x rest ih =>
    exact (each x (by simp)).append (ih fun y member => each y (List.mem_cons_of_mem _ member))

end Lexes

theorem foldlM_read_name (file : Text) {name : Text} (word : ∀ c ∈ name, Text.isWord c = true)
    (origin p : Position) (collected : Text) (tokens : List Token) :
    ∃ q, name.foldlM (State.read file) ⟨.word origin collected, p, tokens⟩ =
      .ok ⟨.word origin (name.reverse ++ collected), q, tokens⟩ := by
  induction name generalizing p collected with
  | nil => exact ⟨p, rfl⟩
  | cons c rest ih =>
    obtain ⟨q, read⟩ := ih (fun d member => word d (List.mem_cons_of_mem _ member))
      (p.after c) (c :: collected)
    refine ⟨q, ?_⟩
    have one : (Mode.word origin collected).read file p c =
        .ok ([], .word origin (c :: collected)) := by
      simp [Mode.read, word c (by simp)]
    rw [foldlM_read_cons (s := ⟨.word origin collected, p, tokens⟩) one]
    simpa using read

theorem foldlM_read_arguments (file : Text) {raw : Text} {depth level : Nat} (oneLine : '\n' ∉ raw)
    (nested : Text.nesting (fun _ => false) depth raw = some level)
    (origin p : Position) (collected : Text) (tokens : List Token) :
    ∃ q, raw.foldlM (State.read file) ⟨.arguments origin collected (depth + 1), p, tokens⟩ =
      .ok ⟨.arguments origin (raw.reverse ++ collected) (level + 1), q, tokens⟩ := by
  induction raw generalizing p collected depth with
  | nil =>
    cases nested
    exact ⟨p, rfl⟩
  | cons c rest ih =>
    have inLine : c ≠ '\n' := fun same => oneLine (by simp [same])
    have restLine : '\n' ∉ rest := fun member => oneLine (List.mem_cons_of_mem _ member)
    have one : ∃ between, Text.nesting (fun _ => false) between rest = some level ∧
        (Mode.arguments origin collected (depth + 1)).read file p c =
          .ok ([], .arguments origin (c :: collected) (between + 1)) := by
      rcases Text.nesting_cons_cases nested with ⟨rfl, inner⟩ | ⟨rfl, outer, rfl, inner⟩ |
        ⟨opens, closes, -, inner⟩
      · exact ⟨depth + 1, inner, rfl⟩
      · exact ⟨outer, inner, by simp [Mode.read]⟩
      · exact ⟨depth, inner, by simp [Mode.read, inLine, opens, closes]⟩
    obtain ⟨between, inner, read⟩ := one
    obtain ⟨q, readRest⟩ := ih restLine inner (p.after c) (c :: collected)
    refine ⟨q, ?_⟩
    rw [foldlM_read_cons (s := ⟨.arguments origin collected (depth + 1), p, tokens⟩) read]
    simpa using readRest

theorem foldlM_read_declaration (file : Text) {line : Text} (oneLine : '\n' ∉ line)
    (kind : DefinitionKind) (origin p : Position) (collected : Text) (tokens : List Token) :
    ∃ q, line.foldlM (State.read file) ⟨.declaration kind origin collected, p, tokens⟩ =
      .ok ⟨.declaration kind origin (line.reverse ++ collected), q, tokens⟩ := by
  induction line generalizing p collected with
  | nil => exact ⟨p, rfl⟩
  | cons c rest ih =>
    have inLine : c ≠ '\n' := fun same => oneLine (by simp [same])
    obtain ⟨q, read⟩ := ih (fun member => oneLine (List.mem_cons_of_mem _ member))
      (p.after c) (c :: collected)
    refine ⟨q, ?_⟩
    have one : (Mode.declaration kind origin collected).read file p c =
        .ok ([], .declaration kind origin (c :: collected)) := by
      simp [Mode.read, inLine]
    rw [foldlM_read_cons (s := ⟨.declaration kind origin collected, p, tokens⟩) one]
    simpa using read

theorem begin_of_isLetter {c : Char} (letter : Text.isLetter c = true) (p : Position) :
    begin p c = ([], .word p [c]) := by
  have differs {d : Char} (other : Text.isLetter d = false) : c ≠ d := by
    rintro rfl
    rw [letter] at other
    cases other
  have ink : isSkipped c = false := by
    simp [isSkipped, differs (d := ' ') (by decide), differs (d := '\t') (by decide),
      differs (d := '\r') (by decide), differs (d := '\n') (by decide)]
  simp [begin, ink, DefinitionKind.ofSigil?, letter, differs (d := '#') (by decide),
    differs (d := '$') (by decide), differs (d := '@') (by decide),
    differs (d := '§') (by decide)]

/-- A name that starts where a token may start is collected as a word. -/
theorem foldlM_read_start (file : Text) {name : Text} (legal : IsCallName name) (p : Position)
    (tokens : List Token) :
    ∃ q, name.foldlM (State.read file) ⟨.start, p, tokens⟩ =
      .ok ⟨.word p name.reverse, q, tokens⟩ := by
  cases name with
  | nil => exact absurd rfl legal.ne_nil
  | cons c rest =>
    have letter : Text.isLetter c = true := by simpa using legal.first
    obtain ⟨q, read⟩ := foldlM_read_name file
      (fun d member => legal.word d (List.mem_cons_of_mem _ member)) p (p.after c) [c] tokens
    refine ⟨q, ?_⟩
    rw [foldlM_read_cons (s := ⟨.start, p, tokens⟩)
      (congrArg Except.ok (begin_of_isLetter letter p))]
    simpa using read

/-- A call word on a line of its own is one token. -/
theorem Lexes.callWord {word : Text} (legal : IsCallWord word) :
    Lexes (word ++ ['\n']) [(.word, word)] := by
  intro file p tokens
  cases legal with
  | name legal =>
    obtain ⟨q, read⟩ := foldlM_read_start file legal p tokens
    refine ⟨q.after '\n', [wordToken p word.reverse], ?_, by simp [wordToken, token, Token.spelling]⟩
    have last : (Mode.word p word.reverse).read file q '\n' =
        .ok ([wordToken p word.reverse], .start) := rfl
    rw [foldlM_read_append read,
      foldlM_read_cons (s := ⟨.word p word.reverse, q, tokens⟩) last]
    rfl
  | @arguments name raw legal balanced oneLine =>
    obtain ⟨q, readName⟩ := foldlM_read_start file legal p tokens
    obtain ⟨r, readRaw⟩ := foldlM_read_arguments file oneLine balanced p (q.after '(')
      ('(' :: name.reverse) tokens
    have opens : (Mode.word p name.reverse).read file q '(' =
        .ok ([], .arguments p ('(' :: name.reverse) 1) := rfl
    have closes : (Mode.arguments p (raw.reverse ++ '(' :: name.reverse) 1).read file r ')' =
        .ok ([wordToken p (')' :: (raw.reverse ++ '(' :: name.reverse))], .start) := rfl
    refine ⟨(r.after ')').after '\n',
      [wordToken p (')' :: (raw.reverse ++ '(' :: name.reverse))], ?_, ?_⟩
    · rw [List.append_assoc, List.append_assoc, foldlM_read_append readName, List.cons_append,
        foldlM_read_cons (s := ⟨.word p name.reverse, q, tokens⟩) opens,
        List.nil_append, foldlM_read_append readRaw, List.singleton_append,
        foldlM_read_cons
          (s := ⟨.arguments p (raw.reverse ++ '(' :: name.reverse) 1, r, tokens⟩) closes]
      rfl
    · simp [wordToken, token, Token.spelling]

/-- A declaration line is one token. -/
theorem Lexes.declaration {line : Text} (oneLine : '\n' ∉ line) (kind : DefinitionKind) :
    Lexes (kind.sigil :: line ++ ['\n']) [(.declaration kind, declarationText line)] := by
  intro file p tokens
  obtain ⟨q, read⟩ := foldlM_read_declaration file oneLine kind p
    (p.after kind.sigil) [] tokens
  refine ⟨q.after '\n', [declarationToken kind p line.reverse], ?_,
    by simp [declarationToken, token, Token.spelling]⟩
  have starts : Mode.start.read file p kind.sigil = .ok ([], .declaration kind p []) := by
    cases kind <;> rfl
  have ends : (Mode.declaration kind p line.reverse).read file q '\n' =
      .ok ([declarationToken kind p line.reverse], .start) := rfl
  rw [List.append_nil] at read
  rw [List.cons_append, foldlM_read_cons (s := ⟨.start, p, tokens⟩) starts, List.nil_append,
    foldlM_read_append read,
    foldlM_read_cons (s := ⟨.declaration kind p line.reverse, q, tokens⟩) ends]
  rfl

theorem Lexes.command (c : Command) : Lexes [c.symbol] [(.symbol, [c.symbol])] := by
  apply Lexes.symbol
  intro p
  cases c with
  | act action => cases action <;> rfl
  | jump => rfl
  | back => rfl

/-- A text made of whole tokens is tokenized as they are spelled. -/
theorem Lexes.tokenize {text : Text} {spelled : List (TokenKind × Text)}
    (lexes : Lexes text spelled) (file : Text) :
    ∃ tokens, TapeLang.tokenize file text = .ok tokens ∧
      tokens.map Token.spelling = spelled ++ [(.endOfText, [])] := by
  obtain ⟨q, new, read, rfl⟩ := lexes file {} []
  refine ⟨(token .endOfText [] q :: new).reverse, ?_, ?_⟩
  · rw [TapeLang.tokenize, read]
    simp [State.finish, Mode.finish]
  · simp [token, Token.spelling]

end Lexer
end TapeLang
