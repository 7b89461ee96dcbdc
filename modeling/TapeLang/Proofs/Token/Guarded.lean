import TapeLang.Proofs.Expansion.Lockstep
import TapeLang.Proofs.Token.Lines

/-! Texts in which declarations of macros have become declarations of procedures. The sigil of the
one stands in the place of the sigil of the other, where a token may start, and the tokens differ
in the kinds of these declarations only. -/
namespace TapeLang

theorem SameStep.bind {ε σ τ σ' τ' : Type} {R : σ → τ → Prop} {S : σ' → τ' → Prop}
    {x : Except ε σ} {y : Except ε τ} {f : σ → Except ε σ'} {g : τ → Except ε τ'}
    (same : SameStep R x y)
    (next : ∀ s t, x = .ok s → y = .ok t → R s t → SameStep S (f s) (g t)) :
    SameStep S (x >>= f) (y >>= g) := by
  rcases same.ends with ⟨s, t, rfl, rfl, related⟩ | ⟨e, rfl, rfl⟩
  · exact next s t rfl rfl related
  · exact .error

/-- A kind of definition, or procedures in the place of macros. -/
inductive DefinitionKind.Guards : DefinitionKind → DefinitionKind → Prop where
  | same (kind : DefinitionKind) : Guards kind kind
  | turned : Guards .macroForm .procedureForm

/-- A token, or the declaration of a procedure in the place of that of a macro. -/
inductive Token.Guards : Token → Token → Prop where
  | same (t : Token) : Guards t t
  | turned {value : Text} {line column : Int} :
      Guards ⟨.declaration .macroForm, value, line, column⟩
        ⟨.declaration .procedureForm, value, line, column⟩

theorem Token.guards_same (tokens : List Token) : List.Forall₂ Guards tokens tokens :=
  List.forall₂_same.mpr fun t _ => .same t

namespace Lexer

/-- Whether a token may start behind the text, as at the beginning of a line: the text ends neither
among arguments nor in a declaration or a comment. -/
def MayStart (front : Text) : Prop :=
  ∃ s, front.foldlM (State.read []) {} = .ok s ∧
    (s.mode = .start ∨ ∃ origin collected, s.mode = .word origin collected)

end Lexer

/-- A line, or the same line with the sigil of procedures where it declares a macro. -/
inductive Text.Guards : Text → Text → Prop where
  | same (line : Text) : Guards line line
  | turned {front rest : Text} : Lexer.MayStart front →
      Guards (front ++ '$' :: rest) (front ++ '@' :: rest)

theorem Text.Guards.declaration (rest : Text) : Guards ('$' :: rest) ('@' :: rest) :=
  @turned [] rest ⟨{}, rfl, .inl rfl⟩

namespace Lexer

inductive Mode.Guards : Mode → Mode → Prop where
  | same (mode : Mode) : Guards mode mode
  | turned {origin : Position} {collected : Text} :
      Guards (.declaration .macroForm origin collected)
        (.declaration .procedureForm origin collected)

/-- States that differ in the kinds of declarations that were read or are being read. -/
structure State.Guards (s t : State) : Prop where
  mode : s.mode.Guards t.mode
  position : t.position = s.position
  tokens : List.Forall₂ Token.Guards s.tokens t.tokens

variable {s t : State}

theorem State.Guards.read (guards : s.Guards t) (file : Text) (c : Char) :
    SameStep State.Guards (s.read file c) (t.read file c) := by
  obtain ⟨mode, _, tokens⟩ := s
  obtain ⟨mode', p, tokens'⟩ := t
  obtain ⟨modes, position, related⟩ := guards
  dsimp only at modes position related
  subst position
  unfold State.read
  cases modes with
  | same =>
    cases mode.read file p c with
    | error e => exact .error
    | ok result => exact .ok ⟨.same _, rfl, List.rel_append (Token.guards_same _) related⟩
  | turned =>
    by_cases lineEnd : c = '\n'
    · subst lineEnd
      exact .ok ⟨.same _, rfl, .cons .turned related⟩
    · simp only [Mode.read, lineEnd, if_false]
      exact .ok ⟨.turned, rfl, related⟩

theorem State.Guards.foldlM (guards : s.Guards t) (file text : Text) :
    SameStep State.Guards (text.foldlM (State.read file) s) (text.foldlM (State.read file) t) := by
  induction text generalizing s t with
  | nil => exact .ok guards
  | cons c rest ih =>
    rw [List.foldlM_cons, List.foldlM_cons]
    exact (guards.read file c).bind fun _ _ _ _ next => ih next

/-- Where a token may start, either sigil starts a declaration of its kind and ends a word alike. -/
theorem Mode.read_sigil {mode : Mode}
    (free : mode = .start ∨ ∃ origin collected, mode = .word origin collected) (file : Text)
    (p : Position) : ∃ completed,
      mode.read file p '$' = .ok (completed, .declaration .macroForm p []) ∧
      mode.read file p '@' = .ok (completed, .declaration .procedureForm p []) := by
  rcases free with rfl | ⟨origin, collected, rfl⟩
  · exact ⟨[], rfl, rfl⟩
  · exact ⟨[wordToken origin collected], rfl, rfl⟩

/-- Behind a text where a token may start it may do so wherever the text stands. -/
theorem MayStart.mode {front : Text} (mayStart : MayStart front) {file : Text}
    (start : s.mode = .start) (read : front.foldlM (State.read file) s = .ok t) :
    t.mode = .start ∨ ∃ origin collected, t.mode = .word origin collected := by
  obtain ⟨alone, readAlone, free⟩ := mayStart
  have behind : State.Behind (s.tokens.map Token.spelling) {} s := ⟨by rw [start], rfl⟩
  obtain ⟨again, read', behind'⟩ := behind.foldlM readAlone file
  cases read.symm.trans read'
  have unplaced := behind'.mode
  generalize t.mode = mode at unplaced ⊢
  rcases free with same | ⟨origin, collected, same⟩ <;> rw [same] at unplaced <;>
    cases mode <;> cases unplaced
  · exact .inl rfl
  · exact .inr ⟨_, _, rfl⟩

theorem State.Guards.line (guards : s.Guards t) (start : s.mode = .start) {line line' : Text}
    (lines : line.Guards line') (file : Text) :
    SameStep State.Guards (line.foldlM (State.read file) s) (line'.foldlM (State.read file) t) := by
  cases lines with
  | same => exact guards.foldlM file line
  | @turned front rest mayStart =>
    rw [List.foldlM_append, List.foldlM_append]
    refine (guards.foldlM file front).bind fun next next' read _ related => ?_
    have free := mayStart.mode start read
    obtain ⟨mode, _, tokens⟩ := next
    obtain ⟨mode', p, tokens'⟩ := next'
    obtain ⟨modes, position, related⟩ := related
    dsimp only at free modes position related
    subst position
    obtain ⟨completed, asMacro, asProcedure⟩ := Mode.read_sigil free file p
    cases modes with
    | turned => rcases free with free | ⟨_, _, free⟩ <;> cases free
    | same =>
      rw [foldlM_read_cons (s := ⟨mode, p, tokens⟩) asMacro,
        foldlM_read_cons (s := ⟨mode, p, tokens'⟩) asProcedure]
      have inside : State.Guards
          ⟨.declaration .macroForm p [], p.after '$', completed ++ tokens⟩
          ⟨.declaration .procedureForm p [], p.after '@', completed ++ tokens'⟩ :=
        ⟨.turned, rfl, List.rel_append (Token.guards_same completed) related⟩
      exact inside.foldlM file rest

theorem State.Guards.lines (guards : s.Guards t) (start : s.mode = .start)
    {lines lines' : List Text} (related : List.Forall₂ Text.Guards lines lines') (file : Text) :
    SameStep State.Guards ((Text.join ['\n'] lines).foldlM (State.read file) s)
      ((Text.join ['\n'] lines').foldlM (State.read file) t) := by
  induction related generalizing s t with
  | nil => exact .ok guards
  | @cons line line' rest rest' first others ih =>
    cases others with
    | nil =>
      rw [Text.join, List.intercalate_singleton, Text.join, List.intercalate_singleton]
      exact guards.line start first file
    | @cons next next' more more' second others =>
      rw [Text.join_cons_cons, Text.join_cons_cons, List.foldlM_append, List.foldlM_append]
      refine (guards.line start first file).bind fun u v _ _ related => ?_
      rw [List.foldlM_cons, List.foldlM_cons]
      refine (related.read file '\n').bind fun u' v' read _ related' => ih related' ?_
      unfold State.read at read
      cases lineEnd : u.mode.read file u.position '\n' with
      | error e => rw [lineEnd] at read; cases read
      | ok result =>
        rw [lineEnd] at read
        cases read
        exact (Mode.finish_of_lineEnd lineEnd file).2

theorem State.Guards.finish (guards : s.Guards t) (file : Text) :
    SameStep (List.Forall₂ Token.Guards) (s.finish file) (t.finish file) := by
  obtain ⟨mode, _, tokens⟩ := s
  obtain ⟨mode', p, tokens'⟩ := t
  obtain ⟨modes, position, related⟩ := guards
  dsimp only at modes position related
  subst position
  unfold State.finish
  cases modes with
  | turned => exact .ok (List.rel_reverse (.cons (.same _) (.cons .turned related)))
  | same =>
    cases mode.finish file with
    | error e => exact .error
    | ok completed =>
      exact .ok (List.rel_reverse
        (.cons (.same _) (List.rel_append (Token.guards_same completed) related)))

end Lexer

/-- Lines with procedures in the place of macros lex alike, but for the kinds of their
declarations. -/
theorem tokenize_guards {lines lines' : List Text} (guards : List.Forall₂ Text.Guards lines lines')
    (file : Text) : SameStep (List.Forall₂ Token.Guards)
      (tokenize file (Text.join ['\n'] lines)) (tokenize file (Text.join ['\n'] lines')) := by
  have start : Lexer.State.Guards {} {} := ⟨.same _, rfl, .nil⟩
  unfold tokenize
  rcases (start.lines rfl guards file).ends with ⟨s, t, left, right, related⟩ | ⟨e, left, right⟩
  · rw [left, right]
    exact related.finish file
  · rw [left, right]
    exact .error

end TapeLang
