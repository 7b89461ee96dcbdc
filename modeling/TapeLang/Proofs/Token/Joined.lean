import TapeLang.Proofs.Program.Places

/-! Lexing of two texts with a line end between them. A line end completes what the end of a text
would complete, and what is read behind it does not depend on where it starts, but for the places
of the tokens. -/
namespace TapeLang

namespace Lexer

variable {file : Text} {p : Position} {c : Char} {mode after : Mode} {completed : List Token}

/-- A line end completes the tokens that the end of the text completes. -/
theorem Mode.read_lineEnd (finished : mode.finish file = .ok completed) (file' : Text)
    (p : Position) : mode.read file' p '\n' = .ok (completed, .start) := by
  cases mode with
  | start | comment | declaration | word =>
    cases finished
    rfl
  | arguments => cases finished

/-- No token ends a text before its end. -/
theorem begin_unended (p : Position) (c : Char) : ∀ t ∈ (begin p c).1, t.kind ≠ .endOfText := by
  unfold begin
  repeat' split
  all_goals simp [token]

theorem Mode.read_unended :
    Keeps (fun _ => True) (fun t => t.kind ≠ .endOfText) fun _ => True := by
  intro file p c mode after completed _ _ read
  refine ⟨?_, trivial⟩
  cases mode with
  | start =>
    rw [show completed = (begin p c).1 from (congrArg Prod.fst (Except.ok.inj read)).symm]
    exact begin_unended p c
  | comment =>
    cases read
    exact List.forall_mem_nil _
  | declaration kind origin collected =>
    have same := Except.ok.inj read
    split at same <;> cases same
    · exact List.forall_mem_singleton.mpr TokenKind.noConfusion
    · exact List.forall_mem_nil _
  | word origin collected =>
    have same := Except.ok.inj read
    split at same
    · cases same
      exact List.forall_mem_nil _
    · split at same <;> cases same
      · exact List.forall_mem_nil _
      · exact List.forall_mem_append.mpr
          ⟨begin_unended p c, List.forall_mem_singleton.mpr TokenKind.noConfusion⟩
  | arguments origin collected depth =>
    simp only [Mode.read] at read
    repeat' split at read
    all_goals cases read
    all_goals first
      | exact List.forall_mem_nil _
      | exact List.forall_mem_singleton.mpr TokenKind.noConfusion

/-- A mode without the place where its token starts. -/
def Mode.unplaced : Mode → Mode
  | .start => .start
  | .comment => .comment
  | .declaration kind _ collected => .declaration kind {} collected
  | .word _ collected => .word {} collected
  | .arguments _ collected depth => .arguments {} collected depth

/-- What reading a character gives, if it is read, without places. -/
def readings (read : Except SourceError (List Token × Mode)) :
    Option (List (TokenKind × Text) × Mode) :=
  read.toOption.map fun result => (result.1.map Token.spelling, result.2.unplaced)

theorem readings_begin (p : Position) (c : Char) :
    readings (.ok (begin p c)) = readings (.ok (begin {} c)) := by
  unfold begin
  repeat' split
  all_goals rfl

/-- One character is read alike in every file and at every place. -/
theorem Mode.readings_read (mode : Mode) (file : Text) (p : Position) (c : Char) :
    readings (mode.read file p c) = readings (mode.unplaced.read [] {} c) := by
  cases mode with
  | start => exact readings_begin p c
  | comment => rfl
  | declaration kind origin collected =>
    simp only [Mode.read, Mode.unplaced]
    split <;> rfl
  | word origin collected =>
    simp only [Mode.read, Mode.unplaced]
    repeat' split
    · rfl
    · rfl
    · have same := readings_begin p c
      simp only [readings, Except.toOption, Option.map_some, Option.some.injEq,
        Prod.mk.injEq] at same
      simp only [readings, Except.toOption, Option.map_some, List.map_append, same.1, same.2]
      rfl
  | arguments origin collected depth =>
    simp only [Mode.read, Mode.unplaced]
    repeat' split
    all_goals rfl

/-- A state that stands elsewhere, behind some more tokens. -/
structure State.Behind (front : List (TokenKind × Text)) (s t : State) : Prop where
  mode : t.mode.unplaced = s.mode.unplaced
  tokens : t.tokens.map Token.spelling = s.tokens.map Token.spelling ++ front

variable {front : List (TokenKind × Text)} {s t next : State} {text : Text}

theorem State.Behind.read (behind : s.Behind front t) (read : s.read file c = .ok next)
    (file' : Text) : ∃ next', t.read file' c = .ok next' ∧ next.Behind front next' := by
  have same : readings (t.mode.read file' t.position c) =
      readings (s.mode.read file s.position c) := by
    rw [Mode.readings_read, behind.mode, ← s.mode.readings_read file s.position]
  unfold State.read at read ⊢
  cases one : s.mode.read file s.position c with
  | error e => rw [one] at read; cases read
  | ok result =>
    rw [one] at read same
    cases read
    cases other : t.mode.read file' t.position c with
    | error e => rw [other] at same; cases same
    | ok result' =>
      rw [other] at same
      obtain ⟨spelled, mode⟩ := Prod.mk.inj (Option.some.inj same)
      refine ⟨_, rfl, mode, ?_⟩
      rw [List.map_append, List.map_append, List.append_assoc, spelled, behind.tokens]

theorem State.Behind.foldlM (behind : s.Behind front t)
    (read : text.foldlM (State.read file) s = .ok next) (file' : Text) :
    ∃ next', text.foldlM (State.read file') t = .ok next' ∧ next.Behind front next' := by
  induction text generalizing s t with
  | nil =>
    cases read
    exact ⟨t, rfl, behind⟩
  | cons c rest ih =>
    obtain ⟨between, one, others⟩ := foldlM_cons_eq_ok_iff.mp read
    obtain ⟨between', one', behind'⟩ := behind.read one file'
    obtain ⟨next', others', last⟩ := ih behind' others
    exact ⟨next', foldlM_cons_eq_ok_iff.mpr ⟨between', one', others'⟩, last⟩

theorem Mode.finish_unplaced {mode' : Mode} (same : mode'.unplaced = mode.unplaced)
    (finished : mode.finish file = .ok completed) (file' : Text) :
    ∃ completed', mode'.finish file' = .ok completed' ∧
      completed'.map Token.spelling = completed.map Token.spelling := by
  cases mode with
  | start | comment | declaration | word =>
    cases mode' <;> cases same
    cases finished
    exact ⟨_, rfl, rfl⟩
  | arguments => cases finished

theorem State.Behind.finish {tokens : List Token} (behind : s.Behind front t)
    (finished : s.finish file = .ok tokens) (file' : Text) :
    ∃ tokens', t.finish file' = .ok tokens' ∧
      tokens'.map Token.spelling = front.reverse ++ tokens.map Token.spelling := by
  unfold State.finish at finished ⊢
  cases ended : s.mode.finish file with
  | error e => rw [ended] at finished; cases finished
  | ok completed =>
    rw [ended] at finished
    cases finished
    obtain ⟨completed', ended', spelled⟩ := Mode.finish_unplaced behind.mode ended file'
    rw [ended']
    refine ⟨_, rfl, ?_⟩
    simp [behind.tokens, spelled, token, Token.spelling]

/-- A text that lexes is read up to a last mode that its end completes. -/
theorem tokenize_eq_ok_iff {tokens : List Token} :
    tokenize file text = .ok tokens ↔
      ∃ s, text.foldlM (State.read file) {} = .ok s ∧ s.finish file = .ok tokens := by
  unfold tokenize
  cases text.foldlM (State.read file) {} with
  | error e => exact ⟨nofun, by rintro ⟨_, ⟨⟩, _⟩⟩
  | ok s => exact ⟨fun ended => ⟨s, rfl, ended⟩, by rintro ⟨_, ⟨⟩, ended⟩; exact ended⟩

end Lexer

open Lexer

/-- The tokens of two texts with a line end between them are those of the first one, up to its end,
and those of the second one, but for their places. -/
theorem exists_tokenize_join {file file' first second : Text} {tokens more : List Token}
    (lexed : tokenize file first = .ok tokens) (lexed' : tokenize file' second = .ok more)
    (file'' : Text) :
    ∃ front last joined, tokens = front ++ [last] ∧ last.kind = .endOfText ∧
      (∀ t ∈ front, t.kind ≠ .endOfText) ∧
      tokenize file'' (first ++ '\n' :: second) = .ok joined ∧
      joined.map Token.spelling = (front ++ more).map Token.spelling := by
  obtain ⟨s, read, finished⟩ := tokenize_eq_ok_iff.mp lexed
  obtain ⟨s', read', finished'⟩ := tokenize_eq_ok_iff.mp lexed'
  unfold State.finish at finished
  cases ended : s.mode.finish file with
  | error e => rw [ended] at finished; cases finished
  | ok completed =>
    rw [ended] at finished
    cases finished
    have made := foldlM_read_keeps Mode.read_unended (fun _ _ => trivial)
      ⟨trivial, List.forall_mem_nil _⟩ read
    have lineEnd := s.mode.read_lineEnd ended file'' s.position
    have unended := (Mode.read_unended trivial trivial lineEnd).1
    have behind : State.Behind ((completed ++ s.tokens).map Token.spelling) {}
        ⟨.start, s.position.after '\n', completed ++ s.tokens⟩ := ⟨rfl, rfl⟩
    obtain ⟨t, readSecond, behind'⟩ := behind.foldlM read' file''
    obtain ⟨joined, finishedSecond, spelled⟩ := behind'.finish finished' file''
    refine ⟨(completed ++ s.tokens).reverse, _, joined, List.reverse_cons, rfl, ?_, ?_, ?_⟩
    · intro t member
      exact List.forall_mem_append.mpr ⟨unended, made.2⟩ t (List.mem_reverse.mp member)
    · refine tokenize_eq_ok_iff.mpr ⟨t, ?_, finishedSecond⟩
      rw [foldlM_read_append (foldlM_read_elsewhere read file''), foldlM_read_cons lineEnd]
      exact readSecond
    · rw [spelled, ← List.map_reverse, List.map_append]

end TapeLang
