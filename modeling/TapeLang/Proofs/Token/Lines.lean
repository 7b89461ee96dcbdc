import TapeLang.Proofs.Token.Joined

/-! What a text reads as: its tokens up to the end of the text, without their places. Lines that
are joined by line ends read as they read one by one, in turn. -/
namespace TapeLang

/-- The text lexes, and up to its end the tokens are spelled like this. -/
def Text.ReadsAs (text : Text) (spelled : List (TokenKind × Text)) : Prop :=
  ∃ tokens, tokenize [] text = .ok tokens ∧
    tokens.map Token.spelling = spelled ++ [(.endOfText, [])]

open Lexer

theorem Lexer.State.finish_eq_ok_iff {file : Text} {s : State} {tokens : List Token} :
    s.finish file = .ok tokens ↔ ∃ completed, s.mode.finish file = .ok completed ∧
      tokens = (completed ++ s.tokens).reverse ++ [token .endOfText [] s.position] := by
  unfold finish
  cases s.mode.finish file with
  | error e => exact ⟨nofun, by rintro ⟨_, ⟨⟩, _⟩⟩
  | ok completed => simp [eq_comm]

namespace Text

variable {text first second : Text} {spelled spelled' : List (TokenKind × Text)}
variable {tokens : List Token}

theorem readsAs_iff :
    text.ReadsAs spelled ↔ ∃ s completed, text.foldlM (State.read []) {} = .ok s ∧
      s.mode.finish [] = .ok completed ∧
      (completed ++ s.tokens).reverse.map Token.spelling = spelled := by
  constructor
  · rintro ⟨tokens, lexed, same⟩
    obtain ⟨s, read, finished⟩ := tokenize_eq_ok_iff.mp lexed
    obtain ⟨completed, ended, rfl⟩ := State.finish_eq_ok_iff.mp finished
    rw [List.map_append] at same
    exact ⟨s, completed, read, ended, List.append_inj_left' same rfl⟩
  · rintro ⟨s, completed, read, ended, rfl⟩
    refine ⟨_, tokenize_eq_ok_iff.mpr ⟨s, read, State.finish_eq_ok_iff.mpr ⟨_, ended, rfl⟩⟩, ?_⟩
    rw [List.map_append]
    rfl

theorem ReadsAs.unique (reads : text.ReadsAs spelled) (reads' : text.ReadsAs spelled') :
    spelled' = spelled := by
  obtain ⟨tokens, lexed, same⟩ := reads
  obtain ⟨tokens', lexed', same'⟩ := reads'
  cases lexed.symm.trans lexed'
  exact List.append_inj_left' (same'.symm.trans same) rfl

theorem exists_readsAs {file : Text} (lexed : tokenize file text = .ok tokens) :
    ∃ spelled, text.ReadsAs spelled ∧
      tokens.map Token.spelling = spelled ++ [(.endOfText, [])] := by
  have lexed' := tokenize_elsewhere lexed []
  obtain ⟨s, read, finished⟩ := tokenize_eq_ok_iff.mp lexed'
  obtain ⟨completed, ended, rfl⟩ := State.finish_eq_ok_iff.mp finished
  refine ⟨_, readsAs_iff.mpr ⟨s, completed, read, ended, rfl⟩, ?_⟩
  rw [List.map_append]
  rfl

theorem ReadsAs.exists_tokenize (reads : text.ReadsAs spelled) (file : Text) :
    ∃ tokens, tokenize file text = .ok tokens ∧
      tokens.map Token.spelling = spelled ++ [(.endOfText, [])] := by
  obtain ⟨tokens, lexed, same⟩ := reads
  exact ⟨tokens, tokenize_elsewhere lexed file, same⟩

theorem ReadsAs.unended (reads : text.ReadsAs spelled) : ∀ s ∈ spelled, s.1 ≠ .endOfText := by
  obtain ⟨s, completed, read, ended, rfl⟩ := readsAs_iff.mp reads
  have made := foldlM_read_keeps Mode.read_unended (fun _ _ => trivial)
    ⟨trivial, List.forall_mem_nil _⟩ read
  have unended := (Mode.read_unended trivial trivial (s.mode.read_lineEnd ended [] {})).1
  intro spelling member
  obtain ⟨t, listed, rfl⟩ := List.mem_map.mp member
  exact List.forall_mem_append.mpr ⟨unended, made.2⟩ t (List.mem_reverse.mp listed)

end Text

namespace Lexer

variable {front : List (TokenKind × Text)} {s t next : State} {text : Text} {c : Char}

/-- What is read behind some tokens is read without them. -/
theorem State.Behind.read_without (behind : s.Behind front t) {file : Text}
    (read : t.read file c = .ok next) (file' : Text) :
    ∃ next', s.read file' c = .ok next' ∧ next'.Behind front next := by
  cases alone : s.read file' c with
  | ok next' =>
    obtain ⟨again, read', behind'⟩ := behind.read alone file
    cases read.symm.trans read'
    exact ⟨next', rfl, behind'⟩
  | error e =>
    have same : readings (s.mode.read file' s.position c) =
        readings (t.mode.read file t.position c) := by
      rw [Mode.readings_read, ← behind.mode, ← t.mode.readings_read file t.position]
    unfold State.read at read alone
    cases one : t.mode.read file t.position c with
    | error e => rw [one] at read; cases read
    | ok result =>
      cases other : s.mode.read file' s.position c with
      | error e => rw [one, other] at same; cases same
      | ok result => rw [other] at alone; cases alone

theorem State.Behind.foldlM_without (behind : s.Behind front t) {file : Text}
    (read : text.foldlM (State.read file) t = .ok next) (file' : Text) :
    ∃ next', text.foldlM (State.read file') s = .ok next' ∧ next'.Behind front next := by
  induction text generalizing s t with
  | nil =>
    cases read
    exact ⟨s, rfl, behind⟩
  | cons c rest ih =>
    obtain ⟨between, one, others⟩ := foldlM_cons_eq_ok_iff.mp read
    obtain ⟨between', one', behind'⟩ := behind.read_without one file'
    obtain ⟨next', others', last⟩ := ih behind' others
    exact ⟨next', foldlM_cons_eq_ok_iff.mpr ⟨between', one', others'⟩, last⟩

/-- Where a line end is read, the text could have ended. -/
theorem Mode.finish_of_lineEnd {file : Text} {p : Position} {mode after : Mode}
    {completed : List Token} (read : mode.read file p '\n' = .ok (completed, after))
    (file' : Text) : mode.finish file' = .ok completed ∧ after = .start := by
  cases mode with
  | arguments origin collected depth =>
    rw [Mode.read, if_pos rfl] at read
    cases read
  | start | comment | declaration | word =>
    cases read
    exact ⟨rfl, rfl⟩

end Lexer

namespace Text

variable {first second : Text} {spelled : List (TokenKind × Text)}

theorem readsAs_append_lineEnd_iff :
    (first ++ '\n' :: second).ReadsAs spelled ↔
      ∃ front back, first.ReadsAs front ∧ second.ReadsAs back ∧ spelled = front ++ back := by
  constructor
  · intro reads
    obtain ⟨last, completed, read, ended, rfl⟩ := readsAs_iff.mp reads
    obtain ⟨s, readFirst, others⟩ := foldlM_append_eq_ok_iff.mp read
    obtain ⟨t, lineEnd, readSecond⟩ := foldlM_cons_eq_ok_iff.mp others
    unfold State.read at lineEnd
    cases one : s.mode.read [] s.position '\n' with
    | error e => rw [one] at lineEnd; cases lineEnd
    | ok result =>
      obtain ⟨made, mode⟩ := result
      rw [one] at lineEnd
      cases lineEnd
      obtain ⟨finished, rfl⟩ := Mode.finish_of_lineEnd one []
      have behind : State.Behind ((made ++ s.tokens).map Token.spelling) {}
        ⟨.start, s.position.after '\n', made ++ s.tokens⟩ := ⟨rfl, rfl⟩
      obtain ⟨last', alone, behind'⟩ := behind.foldlM_without readSecond []
      obtain ⟨completed', ended', same⟩ := Mode.finish_unplaced behind'.mode.symm ended []
      refine ⟨_, _, readsAs_iff.mpr ⟨s, made, readFirst, finished, rfl⟩,
        readsAs_iff.mpr ⟨last', completed', alone, ended', rfl⟩, ?_⟩
      simp only [List.map_reverse, List.map_append, behind'.tokens, ← same, List.append_assoc,
        ← List.reverse_append]
  · rintro ⟨front, back, ⟨tokens, lexed, same⟩, ⟨more, lexed', same'⟩, rfl⟩
    obtain ⟨head, last, joined, rfl, -, -, lexedAll, spelled⟩ :=
      exists_tokenize_join lexed lexed' []
    rw [List.map_append] at same
    have sameHead : head.map Token.spelling = front := List.append_inj_left' same rfl
    refine ⟨joined, lexedAll, ?_⟩
    rw [spelled, List.map_append, sameHead, same', List.append_assoc]

theorem readsAs_nil : ReadsAs [] [] := ⟨_, rfl, rfl⟩

/-- Lines are read one by one, in turn. -/
theorem readsAs_join_iff {lines : List Text} :
    (join ['\n'] lines).ReadsAs spelled ↔
      ∃ parts, List.Forall₂ ReadsAs lines parts ∧ spelled = parts.flatten := by
  induction lines generalizing spelled with
  | nil =>
    rw [join, List.intercalate_nil]
    constructor
    · intro reads
      exact ⟨[], .nil, readsAs_nil.unique reads⟩
    · rintro ⟨parts, ⟨⟩, rfl⟩
      exact readsAs_nil
  | cons line rest ih =>
    cases rest with
    | nil =>
      rw [join, List.intercalate_singleton]
      constructor
      · intro reads
        exact ⟨[spelled], .cons reads .nil, by simp⟩
      · rintro ⟨parts, reads, rfl⟩
        cases reads with
        | cons first others =>
          cases others
          simpa using first
    | cons next others =>
      rw [join_cons_cons, readsAs_append_lineEnd_iff]
      constructor
      · rintro ⟨front, back, first, later, rfl⟩
        obtain ⟨parts, each, rfl⟩ := ih.mp later
        exact ⟨front :: parts, .cons first each, rfl⟩
      · rintro ⟨parts, reads, rfl⟩
        cases reads with
        | cons first each =>
          exact ⟨_, _, first, ih.mpr ⟨_, each, rfl⟩, rfl⟩

end Text

/-- A line that is one with its line end reads as these tokens without it. -/
theorem Lexer.Lexes.readsAs {line : Text} {spelled : List (TokenKind × Text)}
    (lexes : Lexes (line ++ ['\n']) spelled) : line.ReadsAs spelled := by
  obtain ⟨front, back, reads, readsNothing, same⟩ :=
    Text.readsAs_append_lineEnd_iff.mp (lexes.tokenize [])
  obtain rfl := Text.readsAs_nil.unique readsNothing
  rwa [same, List.append_nil]

/-- A call word is a line that reads as one word. -/
theorem IsCallWord.readsAs {word : Text} (legal : IsCallWord word) :
    word.ReadsAs [(.word, word)] :=
  (Lexes.callWord legal).readsAs

end TapeLang
