import TapeLang.Definition.Declaration
import TapeLang.Proofs.Effect
import TapeLang.Proofs.Token.Lexer

/-! The macro sigil in place of every function sigil. The tokens stay what they are, but for the
kinds of the declarations and the sigils inside of them; bodies without sigils stay the same. -/
namespace TapeLang

/-- The macro sigil in place of that of functions. -/
def macroSigil (c : Char) : Char :=
  if c = DefinitionKind.functionForm.sigil then DefinitionKind.macroForm.sigil else c

def DefinitionKind.asMacro : DefinitionKind → DefinitionKind
  | functionForm => macroForm
  | kind => kind

theorem DefinitionKind.asMacro_of_ne {kind : DefinitionKind} (other : kind ≠ functionForm) :
    kind.asMacro = kind := by
  cases kind with
  | macroForm => rfl
  | procedureForm => rfl
  | functionForm => exact absurd rfl other

theorem DefinitionKind.asMacro_ne (kind : DefinitionKind) : kind.asMacro ≠ functionForm := by
  cases kind <;> decide

theorem DefinitionKind.eq_sigil_of_ofSigil? {c : Char} {kind : DefinitionKind}
    (found : ofSigil? c = some kind) : c = kind.sigil := by
  unfold ofSigil? at found
  by_cases dollar : c = '$'
  · rw [if_pos dollar] at found
    cases found
    exact dollar
  · rw [if_neg dollar] at found
    by_cases commercialAt : c = '@'
    · rw [if_pos commercialAt] at found
      cases found
      exact commercialAt
    · rw [if_neg commercialAt] at found
      by_cases paragraph : c = '§'
      · rw [if_pos paragraph] at found
        cases found
        exact paragraph
      · rw [if_neg paragraph] at found
        cases found

theorem macroSigil_of_ne {c : Char} (other : c ≠ '§') : macroSigil c = c := if_neg other

theorem macroSigil_eq_iff {c d : Char} (function : d ≠ '§') (asMacro : d ≠ '$') :
    macroSigil c = d ↔ c = d := by
  by_cases same : c = '§'
  · subst same
    exact ⟨fun same => absurd same.symm asMacro, fun same => absurd same.symm function⟩
  · rw [macroSigil_of_ne same]

/-- A class of characters that holds both sigils or neither does not see the difference. -/
theorem comp_macroSigil {p : Char → Bool} (same : p '$' = p '§') : p ∘ macroSigil = p := by
  funext c
  by_cases sigil : c = '§'
  · subst sigil
    exact same
  · rw [Function.comp, macroSigil_of_ne sigil]

namespace Text

/-- A text with macros in place of functions. -/
def asMacros (t : Text) : Text := t.map macroSigil

/-- Whether no character of a text opens a declaration. -/
def SigilFree (t : Text) : Prop := ∀ c ∈ t, DefinitionKind.ofSigil? c = none

-- the instance by name: another one runs over all characters there are
instance (t : Text) : Decidable (SigilFree t) :=
  List.decidableBAll (DefinitionKind.ofSigil? · = none) t

variable {t : Text}

theorem asMacros_of_not_mem (absent : '§' ∉ t) : asMacros t = t := by
  rw [asMacros, List.map_congr_left fun c member =>
    macroSigil_of_ne fun same => absent (same ▸ member), List.map_id']

theorem SigilFree.not_mem (free : SigilFree t) {c : Char} (sigil : DefinitionKind.ofSigil? c ≠ none) :
    c ∉ t :=
  fun member => sigil (free c member)

theorem SigilFree.asMacros (free : SigilFree t) : Text.asMacros t = t :=
  asMacros_of_not_mem (free.not_mem (by decide))

theorem SigilFree.subset {u : Text} (free : SigilFree t) (subset : u ⊆ t) : SigilFree u :=
  fun c member => free c (subset member)

theorem asMacros_of_isWord (word : ∀ c ∈ t, isWord c = true) : asMacros t = t :=
  asMacros_of_not_mem fun member => absurd (word _ member) (by decide)

theorem takeWhile_asMacros {p : Char → Bool} (same : p '$' = p '§') (t : Text) :
    (asMacros t).takeWhile p = asMacros (t.takeWhile p) := by
  rw [asMacros, List.takeWhile_map, comp_macroSigil same, asMacros]

theorem dropWhile_asMacros {p : Char → Bool} (same : p '$' = p '§') (t : Text) :
    (asMacros t).dropWhile p = asMacros (t.dropWhile p) := by
  rw [asMacros, List.dropWhile_map, comp_macroSigil same, asMacros]

theorem isBlankText_asMacros (t : Text) : isBlankText (asMacros t) = isBlankText t := by
  have same : isBlank ∘ macroSigil = isBlank := comp_macroSigil (by decide)
  rw [isBlankText, asMacros, List.all_map, same, isBlankText]

theorem stripStart_asMacros (t : Text) : stripStart (asMacros t) = asMacros (stripStart t) :=
  dropWhile_asMacros (by decide) t

theorem stripEnd_asMacros (t : Text) : stripEnd (asMacros t) = asMacros (stripEnd t) := by
  have dropped := dropWhile_asMacros (p := isBlank) (by decide) t.reverse
  rw [stripEnd, show (asMacros t).reverse = asMacros t.reverse from List.map_reverse.symm, dropped,
    asMacros, ← List.map_reverse, stripEnd, asMacros]

theorem strip_asMacros (t : Text) : strip (asMacros t) = asMacros (strip t) := by
  rw [strip, stripStart_asMacros, stripEnd_asMacros, strip]

theorem cut_asMacros {separator : Char} (function : separator ≠ '§') (asMacro : separator ≠ '$')
    (t : Text) :
    cut separator (asMacros t) =
      (asMacros (cut separator t).1, (cut separator t).2.map asMacros) := by
  induction t with
  | nil => rfl
  | cons c rest ih =>
    rw [asMacros, List.map_cons, cut, cut]
    by_cases ends : c = separator
    · rw [if_pos ends, if_pos ((macroSigil_eq_iff function asMacro).mpr ends)]
      rfl
    · rw [if_neg ends, if_neg (mt (macroSigil_eq_iff function asMacro).mp ends)]
      rw [asMacros] at ih
      rw [ih]
      rfl

theorem pieces_asMacros {separator : Char} (function : separator ≠ '§')
    (asMacro : separator ≠ '$') (t : Text) :
    pieces separator (asMacros t) = (pieces separator t).map asMacros := by
  induction t with
  | nil => rfl
  | cons c rest ih =>
    rw [asMacros] at ih
    rw [asMacros, List.map_cons, pieces, pieces, ih]
    by_cases ends : c = separator
    · rw [if_pos ends, if_pos ((macroSigil_eq_iff function asMacro).mpr ends)]
      rfl
    · rw [if_neg ends, if_neg (mt (macroSigil_eq_iff function asMacro).mp ends)]
      cases pieces separator rest <;> rfl

end Text

/-- A token of a text with macros in place of functions. -/
def Token.asMacro (t : Token) : Token :=
  { t with
    kind :=
      match t.kind with
      | .declaration kind => .declaration kind.asMacro
      | kind => kind
    value := Text.asMacros t.value }

namespace Lexer

open Text (asMacros)

def Mode.asMacro : Mode → Mode
  | .start => .start
  | .comment => .comment
  | .declaration kind origin collected => .declaration kind.asMacro origin (asMacros collected)
  | .word origin collected => .word origin (asMacros collected)
  | .arguments origin collected depth => .arguments origin (asMacros collected) depth

def State.asMacro (s : State) : State :=
  ⟨s.mode.asMacro, s.position, s.tokens.map Token.asMacro⟩

theorem begin_asMacro (p : Position) (c : Char) :
    begin p (macroSigil c) = ((begin p c).1.map Token.asMacro, (begin p c).2.asMacro) := by
  by_cases sigil : c = '§'
  · subst sigil
    rfl
  · have alone : asMacros [c] = [c] := Text.asMacros_of_not_mem (by simpa using Ne.symm sigil)
    rw [macroSigil_of_ne sigil]
    unfold begin
    by_cases skipped : isSkipped c
    · rw [if_pos skipped]
      rfl
    · rw [if_neg skipped]
      by_cases comment : c = '#'
      · rw [if_pos comment]
        rfl
      · rw [if_neg comment]
        cases declared : DefinitionKind.ofSigil? c with
        | some kind =>
          have other : kind ≠ .functionForm := by
            rintro rfl
            exact sigil (DefinitionKind.eq_sigil_of_ofSigil? declared)
          simp [Mode.asMacro, DefinitionKind.asMacro_of_ne other, asMacros]
        | none =>
          dsimp only
          by_cases letter : Text.isLetter c
          · simp [letter, Mode.asMacro, alone]
          · simp [letter, Mode.asMacro, Token.asMacro, token, alone]

theorem reverse_asMacros (t : Text) : (asMacros t).reverse = asMacros t.reverse :=
  List.map_reverse.symm

theorem wordToken_asMacro (origin : Position) (collected : Text) :
    wordToken origin (asMacros collected) = (wordToken origin collected).asMacro := by
  rw [wordToken, reverse_asMacros]
  rfl

theorem declarationToken_asMacro (kind : DefinitionKind) (origin : Position) (collected : Text) :
    declarationToken kind.asMacro origin (asMacros collected) =
      (declarationToken kind origin collected).asMacro := by
  have uncommented := Text.takeWhile_asMacros (p := (· ≠ '#')) (by decide) collected.reverse
  rw [declarationToken, declarationText, reverse_asMacros, uncommented, Text.stripEnd_asMacros]
  rfl

/-- One character in a mode. -/
theorem Mode.read_asMacro {file : Text} {p : Position} {c : Char} {mode after : Mode}
    {completed : List Token} (read : mode.read file p c = .ok (completed, after)) :
    mode.asMacro.read file p (macroSigil c) =
      .ok (completed.map Token.asMacro, after.asMacro) := by
  have lineEnd : macroSigil c = '\n' ↔ c = '\n' := macroSigil_eq_iff (by decide) (by decide)
  have opens : macroSigil c = '(' ↔ c = '(' := macroSigil_eq_iff (by decide) (by decide)
  have closes : macroSigil c = ')' ↔ c = ')' := macroSigil_eq_iff (by decide) (by decide)
  have word : Text.isWord (macroSigil c) = Text.isWord c :=
    congrFun (comp_macroSigil (p := Text.isWord) (by decide)) c
  cases mode with
  | start =>
    rw [Mode.asMacro, Mode.read, begin_asMacro,
      show begin p c = (completed, after) from Except.ok.inj read]
  | comment =>
    cases read
    simp only [Mode.asMacro, Mode.read, lineEnd]
    by_cases ends : c = '\n'
    · rw [if_pos ends]
      rfl
    · rw [if_neg ends]
      rfl
  | declaration kind origin collected =>
    simp only [Mode.read] at read
    simp only [Mode.asMacro, Mode.read, lineEnd]
    by_cases ends : c = '\n'
    · rw [if_pos ends] at read ⊢
      cases read
      rw [declarationToken_asMacro]
      rfl
    · rw [if_neg ends] at read ⊢
      cases read
      rfl
  | word origin collected =>
    simp only [Mode.read] at read
    simp only [Mode.asMacro, Mode.read, word, opens]
    by_cases inside : Text.isWord c
    · rw [if_pos inside] at read ⊢
      cases read
      rfl
    · rw [if_neg inside] at read ⊢
      by_cases arguments : c = '('
      · rw [if_pos arguments] at read ⊢
        cases read
        rfl
      · rw [if_neg arguments] at read ⊢
        cases read
        rw [begin_asMacro, wordToken_asMacro, List.map_append]
        rfl
  | arguments origin collected depth =>
    simp only [Mode.read] at read
    simp only [Mode.asMacro, Mode.read, lineEnd, opens, closes]
    by_cases ends : c = '\n'
    · rw [if_pos ends] at read
      cases read
    · rw [if_neg ends] at read ⊢
      by_cases deeper : c = '('
      · rw [if_pos deeper] at read ⊢
        cases read
        rfl
      · rw [if_neg deeper] at read ⊢
        by_cases shallower : c = ')'
        · rw [if_pos shallower] at read ⊢
          by_cases outermost : depth ≤ 1
          · rw [if_pos outermost] at read ⊢
            cases read
            rw [List.map_singleton, ← wordToken_asMacro]
            rfl
          · rw [if_neg outermost] at read ⊢
            cases read
            rfl
        · rw [if_neg shallower] at read ⊢
          cases read
          rfl

theorem Position.after_macroSigil (p : Position) (c : Char) :
    p.after (macroSigil c) = p.after c := by
  have lineEnd : macroSigil c = '\n' ↔ c = '\n' := macroSigil_eq_iff (by decide) (by decide)
  unfold Position.after
  simp only [lineEnd]

theorem foldlM_read_asMacros {file text : Text} {s after : State}
    (read : text.foldlM (State.read file) s = .ok after) :
    (asMacros text).foldlM (State.read file) s.asMacro = .ok after.asMacro := by
  induction text generalizing s with
  | nil =>
    cases read
    rfl
  | cons c rest ih =>
    obtain ⟨next, one, others⟩ := foldlM_cons_eq_ok_iff.mp read
    refine foldlM_cons_eq_ok_iff.mpr ⟨next.asMacro, ?_, ih others⟩
    unfold State.read at one ⊢
    cases stepped : s.mode.read file s.position c with
    | error e => rw [stepped] at one; cases one
    | ok result =>
      rw [stepped] at one
      cases one
      rw [State.asMacro, Mode.read_asMacro stepped, Position.after_macroSigil, State.asMacro,
        List.map_append]

end Lexer

open Lexer in
/-- Replacing the sigils in a text replaces the kinds of the declarations. -/
theorem tokenize_asMacros {file text : Text} {tokens : List Token}
    (lexed : tokenize file text = .ok tokens) :
    tokenize file (Text.asMacros text) = .ok (tokens.map Token.asMacro) := by
  unfold tokenize at lexed ⊢
  cases read : text.foldlM (State.read file) {} with
  | error e => rw [read] at lexed; cases lexed
  | ok s =>
    rw [read] at lexed
    have read' : (Text.asMacros text).foldlM (State.read file) {} = .ok s.asMacro :=
      foldlM_read_asMacros read
    rw [read']
    obtain ⟨mode, position, completed⟩ := s
    cases mode with
    | start =>
      cases lexed
      simp [State.finish, State.asMacro, Mode.asMacro, Mode.finish, Token.asMacro, token,
        Text.asMacros]
    | comment =>
      cases lexed
      simp [State.finish, State.asMacro, Mode.asMacro, Mode.finish, Token.asMacro, token,
        Text.asMacros]
    | declaration kind origin collected =>
      cases lexed
      simp [State.finish, State.asMacro, Mode.asMacro, Mode.finish, declarationToken_asMacro]
      simp [Token.asMacro, token, Text.asMacros]
    | word origin collected =>
      cases lexed
      simp [State.finish, State.asMacro, Mode.asMacro, Mode.finish, wordToken_asMacro]
      simp [Token.asMacro, token, Text.asMacros]
    | arguments => cases lexed

namespace Token

def isDeclaration (t : Token) : Bool :=
  match t.kind with
  | .declaration _ => true
  | .symbol | .word | .endOfText => false

/-- Whether a token declares nothing and has no sigil in its arguments, if it is a word. -/
def IsPlain (t : Token) : Prop :=
  match t.kind with
  | .declaration _ => False
  | .word => Text.SigilFree t.value
  | .symbol | .endOfText => True

/-- What the characters of a text say of its tokens: sigils open declarations, words are made
of other characters, and symbols are no sigils. -/
def MadeOf (ofChar : Char → Prop) (t : Token) : Prop :=
  match t.kind with
  | .declaration kind => ofChar kind.sigil
  | .word => ∀ c ∈ t.value, ofChar c
  | .symbol => Text.SigilFree t.value
  | .endOfText => t.value = []

end Token

namespace Lexer

variable {ofChar : Char → Prop}

/-- What the characters read so far say of what is collected. -/
def Mode.MadeOf (ofChar : Char → Prop) : Mode → Prop
  | .start | .comment => True
  | .declaration kind _ _ => ofChar kind.sigil
  | .word _ collected | .arguments _ collected _ => ∀ c ∈ collected, ofChar c

theorem begin_madeOf (p : Position) {c : Char} (char : ofChar c) :
    (∀ t ∈ (begin p c).1, t.MadeOf ofChar) ∧ (begin p c).2.MadeOf ofChar := by
  unfold begin
  by_cases skipped : isSkipped c
  · rw [if_pos skipped]
    exact ⟨List.forall_mem_nil _, trivial⟩
  · rw [if_neg skipped]
    by_cases comment : c = '#'
    · rw [if_pos comment]
      exact ⟨List.forall_mem_nil _, trivial⟩
    · rw [if_neg comment]
      cases declared : DefinitionKind.ofSigil? c with
      | some kind =>
        have sigil : ofChar kind.sigil := DefinitionKind.eq_sigil_of_ofSigil? declared ▸ char
        exact ⟨List.forall_mem_nil _, sigil⟩
      | none =>
        dsimp only
        by_cases letter : Text.isLetter c
        · rw [if_pos letter]
          exact ⟨List.forall_mem_nil _, List.forall_mem_singleton.mpr char⟩
        · rw [if_neg letter]
          have symbol : Text.SigilFree [c] := List.forall_mem_singleton.mpr declared
          exact ⟨List.forall_mem_singleton.mpr symbol, trivial⟩

theorem Mode.read_madeOf : Keeps (Mode.MadeOf ofChar) (Token.MadeOf ofChar) ofChar := by
  intro file p c mode after completed char made read
  have wordMade {origin : Position} {collected : Text} (chars : ∀ d ∈ collected, ofChar d) :
      (wordToken origin collected).MadeOf ofChar :=
    fun d member => chars d (List.mem_reverse.mp member)
  cases mode with
  | start =>
    have begun := begin_madeOf p char
    rw [show begin p c = (completed, after) from Except.ok.inj read] at begun
    exact begun
  | comment =>
    cases read
    refine ⟨List.forall_mem_nil _, ?_⟩
    split <;> trivial
  | declaration kind origin collected =>
    have same := Except.ok.inj read
    split at same
    · cases same
      exact ⟨List.forall_mem_singleton.mpr made, trivial⟩
    · cases same
      exact ⟨List.forall_mem_nil _, made⟩
  | word origin collected =>
    have same := Except.ok.inj read
    split at same
    · cases same
      exact ⟨List.forall_mem_nil _, List.forall_mem_cons.mpr ⟨char, made⟩⟩
    · split at same
      · cases same
        exact ⟨List.forall_mem_nil _, List.forall_mem_cons.mpr ⟨char, made⟩⟩
      · cases same
        have begun := begin_madeOf p char
        exact ⟨List.forall_mem_append.mpr ⟨begun.1, List.forall_mem_singleton.mpr (wordMade made)⟩,
          begun.2⟩
  | arguments origin collected depth =>
    have longer : ∀ d ∈ c :: collected, ofChar d := List.forall_mem_cons.mpr ⟨char, made⟩
    simp only [Mode.read] at read
    split at read
    · cases read
    · split at read
      · cases read
        exact ⟨List.forall_mem_nil _, longer⟩
      · split at read
        · split at read
          · cases read
            exact ⟨List.forall_mem_singleton.mpr (wordMade longer), trivial⟩
          · cases read
            exact ⟨List.forall_mem_nil _, longer⟩
        · cases read
          exact ⟨List.forall_mem_nil _, longer⟩

theorem Mode.finish_madeOf {file : Text} {mode : Mode} {completed : List Token}
    (made : mode.MadeOf ofChar) (finished : mode.finish file = .ok completed) :
    ∀ t ∈ completed, t.MadeOf ofChar := by
  cases mode with
  | start | comment =>
    cases finished
    exact List.forall_mem_nil _
  | declaration kind origin collected =>
    cases finished
    exact List.forall_mem_singleton.mpr made
  | word origin collected =>
    cases finished
    exact List.forall_mem_singleton.mpr fun c member => made c (List.mem_reverse.mp member)
  | arguments => cases finished

end Lexer

open Lexer in
theorem tokenize_madeOf {ofChar : Char → Prop} {file text : Text} {tokens : List Token}
    (chars : ∀ c ∈ text, ofChar c) (lexed : tokenize file text = .ok tokens) :
    ∀ t ∈ tokens, t.MadeOf ofChar :=
  forall_mem_tokenize Mode.read_madeOf chars trivial Mode.finish_madeOf (fun _ => rfl) lexed

/-- The tokens of a text without sigils are plain. -/
theorem tokenize_plain {file text : Text} {tokens : List Token} (free : Text.SigilFree text)
    (lexed : tokenize file text = .ok tokens) : ∀ t ∈ tokens, t.IsPlain := by
  intro t member
  have made := tokenize_madeOf free lexed t member
  unfold Token.MadeOf at made
  unfold Token.IsPlain
  cases kind : t.kind with
  | declaration form =>
    rw [kind] at made
    cases form <;> cases made
  | word =>
    rw [kind] at made
    exact made
  | symbol | endOfText => trivial

/-- Plain tokens of a text stay what they are. -/
theorem Token.asMacro_of_plain {ofChar : Char → Prop} {t : Token} (made : t.MadeOf ofChar)
    (plain : t.IsPlain) : t.asMacro = t := by
  obtain ⟨kind, value, line, column⟩ := t
  cases kind with
  | declaration form => exact plain.elim
  | word =>
    have free : Text.SigilFree value := plain
    rw [Token.asMacro, free.asMacros]
  | symbol =>
    have free : Text.SigilFree value := made
    rw [Token.asMacro, free.asMacros]
  | endOfText =>
    have empty : value = [] := made
    subst empty
    rfl

end TapeLang
