import TapeLang.Proofs.CharRanges
import TapeLang.Proofs.Token.Lines

/-! A line without its comment and without the blanks at its ends. It reads as the whole line does,
unless a comment sign stands among arguments or a blank stands as a symbol. -/
namespace TapeLang

namespace Lexer

/-- Whether a character is among arguments, of a call that is read or of one that is being read. -/
def State.Holds (c : Char) (s : State) : Prop :=
  (∃ origin collected depth, s.mode = .arguments origin collected depth ∧ c ∈ collected) ∨
    ∃ t ∈ s.tokens, t.kind = .word ∧ c ∈ t.value

variable {file text : Text} {c d : Char} {s next : State}

theorem State.Holds.read (holds : s.Holds c) (read : s.read file d = .ok next) : next.Holds c := by
  unfold State.read at read
  cases one : s.mode.read file s.position d with
  | error e => rw [one] at read; cases read
  | ok result =>
    rw [one] at read
    cases read
    rcases holds with ⟨origin, collected, depth, mode, member⟩ | ⟨t, listed, isWord, member⟩
    · have kept := List.mem_cons_of_mem d member
      rw [mode, Mode.read] at one
      repeat' split at one
      all_goals cases one
      · exact .inl ⟨_, _, _, rfl, kept⟩
      · exact .inr ⟨_, List.mem_cons_self, rfl, List.mem_reverse.mpr kept⟩
      · exact .inl ⟨_, _, _, rfl, kept⟩
      · exact .inl ⟨_, _, _, rfl, kept⟩
    · exact .inr ⟨t, List.mem_append_right _ listed, isWord, member⟩

theorem State.Holds.foldlM (holds : s.Holds c) (read : text.foldlM (State.read file) s = .ok next) :
    next.Holds c := by
  induction text generalizing s with
  | nil =>
    cases read
    exact holds
  | cons d rest ih =>
    obtain ⟨between, one, others⟩ := foldlM_cons_eq_ok_iff.mp read
    exact ih (holds.read one) others

/-- What is held when the text ends is in a word. -/
theorem State.Holds.finish {completed : List Token} (holds : s.Holds c)
    (finished : s.mode.finish file = .ok completed) :
    ∃ t ∈ s.tokens, t.kind = .word ∧ c ∈ t.value := by
  rcases holds with ⟨origin, collected, depth, mode, -⟩ | inWord
  · rw [mode] at finished
    cases finished
  · exact inWord

theorem declarationText_append_comment (t comment : Text) :
    declarationText (t ++ '#' :: comment) = declarationText t := by
  unfold declarationText
  rw [List.takeWhile_append, List.takeWhile_cons_of_neg (by decide), List.append_nil]
  split
  · rename_i whole
    rw [(List.takeWhile_prefix _).eq_of_length whole]
  · rfl

theorem declarationText_append_blank (t : Text) (blank : Text.isBlank c = true) :
    declarationText (t ++ [c]) = declarationText t := by
  have unsigned : [c].takeWhile (· ≠ '#') = [c] := by
    simp [Text.ne_of_isBlank blank (d := '#') (by decide)]
  have blanks : Text.isBlankText [c] = true := by simp [Text.isBlankText, blank]
  unfold declarationText
  rw [List.takeWhile_append, unsigned]
  split
  · rename_i whole
    rw [Text.stripEnd_append_of_blank blanks, (List.takeWhile_prefix _).eq_of_length whole]
  · rfl

/-- Where a token may start, a blank is skipped or makes a symbol. -/
theorem begin_of_isBlank (blank : Text.isBlank c = true) (p : Position) :
    begin p c = ([], .start) ∨ begin p c = ([token .symbol [c] p], .start) := by
  have letter : Text.isLetter c = false := by
    apply Bool.eq_false_iff.mpr
    intro letter
    cases (isWord_of_isLetter letter).symm.trans (Text.isWord_of_isBlank blank)
  by_cases skipped : isSkipped c = true
  · exact .inl (by simp [begin, skipped])
  · exact .inr (by simp [begin, skipped, letter, DefinitionKind.ofSigil?,
      Text.ne_of_isBlank blank (d := '#') (by decide),
      Text.ne_of_isBlank blank (d := '$') (by decide),
      Text.ne_of_isBlank blank (d := '@') (by decide),
      Text.ne_of_isBlank blank (d := '§') (by decide)])

/-- A blank at the end of a text adds nothing, unless it makes a symbol. -/
theorem Mode.finish_of_blank {p : Position} {mode after : Mode} {completed last : List Token}
    (blank : Text.isBlank c = true) (read : mode.read file p c = .ok (completed, after))
    (finished : after.finish file = .ok last)
    (symbols : ∀ t ∈ last ++ completed, t.spelling ≠ (.symbol, [c])) :
    ∃ made, mode.finish file = .ok made ∧
      made.map Token.spelling = (last ++ completed).map Token.spelling := by
  have begins : begin p c = ([], .start) ∨ token .symbol [c] p ∈ (begin p c).1 := by
    rcases begin_of_isBlank blank p with skipped | symbol
    · exact .inl skipped
    · exact .inr (by rw [symbol]; exact List.mem_cons_self)
  cases mode with
  | start =>
    rcases begins with skipped | symbol
    · rw [Mode.read, skipped] at read
      cases read
      cases finished
      exact ⟨[], rfl, rfl⟩
    · have begun : completed = (begin p c).1 := (congrArg Prod.fst (Except.ok.inj read)).symm
      rw [begun] at symbols
      exact absurd rfl (symbols _ (List.mem_append_right _ symbol))
  | comment =>
    cases read
    split at finished <;> cases finished <;> exact ⟨[], rfl, rfl⟩
  | declaration kind origin collected =>
    refine ⟨_, rfl, ?_⟩
    have same := Except.ok.inj read
    split at same <;> cases same <;> cases finished
    · rfl
    · simp [declarationToken, token, Token.spelling, declarationText_append_blank _ blank]
  | word origin collected =>
    have outside := Text.isWord_of_isBlank blank
    simp only [Mode.read, outside, Bool.false_eq_true, if_false,
      Text.ne_of_isBlank blank (d := '(') (by decide),
      Except.ok.injEq, Prod.mk.injEq] at read
    obtain ⟨rfl, rfl⟩ := read
    rcases begins with skipped | symbol
    · rw [skipped] at finished ⊢
      cases finished
      exact ⟨_, rfl, rfl⟩
    · exact absurd rfl
        (symbols _ (List.mem_append_right _ (List.mem_append_left _ symbol)))
  | arguments origin collected depth =>
    simp only [Mode.read, Text.ne_of_isBlank blank (d := '(') (by decide),
      Text.ne_of_isBlank blank (d := ')') (by decide), if_false] at read
    split at read <;> cases read
    cases finished

theorem foldlM_read_comment (file : Text) {comment : Text} (oneLine : '\n' ∉ comment) (p : Position)
    (tokens : List Token) : ∃ q, comment.foldlM (State.read file) ⟨.comment, p, tokens⟩ =
      .ok ⟨.comment, q, tokens⟩ := by
  induction comment generalizing p with
  | nil => exact ⟨p, rfl⟩
  | cons c rest ih =>
    have inLine : c ≠ '\n' := fun same => oneLine (by simp [same])
    obtain ⟨q, read⟩ := ih (fun member => oneLine (List.mem_cons_of_mem _ member)) (p.after c)
    refine ⟨q, ?_⟩
    have one : Mode.comment.read file p c = .ok ([], .comment) := by simp [Mode.read, inLine]
    rw [foldlM_read_cons (s := ⟨.comment, p, tokens⟩) one]
    exact read

end Lexer

namespace Text

open Lexer

variable {t : Text} {c : Char} {spelled : List (TokenKind × Text)}

/-- A comment adds nothing, where its sign is in no word. -/
theorem ReadsAs.uncommented {comment : Text} (reads : ReadsAs (t ++ '#' :: comment) spelled)
    (oneLine : '\n' ∉ comment) (words : ∀ s ∈ spelled, s.1 = .word → '#' ∉ s.2) :
    ReadsAs t spelled := by
  obtain ⟨last, completed, read, ended, rfl⟩ := readsAs_iff.mp reads
  obtain ⟨⟨mode, p, tokens⟩, readFront, others⟩ := foldlM_append_eq_ok_iff.mp read
  obtain ⟨next, sign, readComment⟩ := foldlM_cons_eq_ok_iff.mp others
  refine readsAs_iff.mpr ⟨⟨mode, p, tokens⟩, ?_⟩
  cases mode with
  | start | comment =>
    obtain ⟨q, read'⟩ := foldlM_read_comment [] oneLine (p.after '#') tokens
    cases sign
    cases read'.symm.trans readComment
    cases ended
    exact ⟨[], readFront, rfl, rfl⟩
  | word origin collected =>
    have sign' : State.read [] ⟨.word origin collected, p, tokens⟩ '#' =
        .ok ⟨.comment, p.after '#', wordToken origin collected :: tokens⟩ := rfl
    obtain ⟨q, read'⟩ :=
      foldlM_read_comment [] oneLine (p.after '#') (wordToken origin collected :: tokens)
    cases sign'.symm.trans sign
    cases read'.symm.trans readComment
    cases ended
    exact ⟨[wordToken origin collected], readFront, rfl, rfl⟩
  | declaration kind origin collected =>
    obtain ⟨q, read'⟩ := foldlM_read_declaration [] oneLine kind origin (p.after '#')
      ('#' :: collected) tokens
    cases sign
    cases read'.symm.trans readComment
    cases ended
    refine ⟨[declarationToken kind origin collected], readFront, rfl, ?_⟩
    simp [declarationToken, token, Token.spelling, declarationText_append_comment]
  | arguments origin collected depth =>
    have holds : State.Holds '#' next := by
      cases sign
      exact .inl ⟨_, _, _, rfl, List.mem_cons_self⟩
    obtain ⟨t, listed, isWord, member⟩ := (holds.foldlM readComment).finish ended
    refine absurd member (words t.spelling (List.mem_map_of_mem ?_) isWord)
    exact List.mem_reverse.mpr (List.mem_append_right _ listed)

/-- A blank at the start of a text adds nothing, unless it makes a symbol. -/
theorem ReadsAs.of_blank_cons (reads : ReadsAs (c :: t) spelled) (blank : isBlank c = true)
    (symbol : (.symbol, [c]) ∉ spelled) : ReadsAs t spelled := by
  obtain ⟨last, completed, read, ended, rfl⟩ := readsAs_iff.mp reads
  obtain ⟨next, one, others⟩ := foldlM_cons_eq_ok_iff.mp read
  have begun : State.read [] {} c =
      .ok ⟨(begin {} c).2, Position.after {} c, (begin {} c).1 ++ []⟩ := rfl
  obtain rfl := Except.ok.inj (begun.symm.trans one)
  have behind : State.Behind ((begin {} c).1.map Token.spelling) {}
      ⟨(begin {} c).2, Position.after {} c, (begin {} c).1 ++ []⟩ := by
    rcases begin_of_isBlank blank {} with same | same <;> simp only [same] <;> exact ⟨rfl, rfl⟩
  obtain ⟨last', read', behind'⟩ := behind.foldlM_without others []
  obtain ⟨completed', ended', same⟩ := Mode.finish_unplaced behind'.mode.symm ended []
  refine readsAs_iff.mpr ⟨last', completed', read', ended', ?_⟩
  rcases begin_of_isBlank blank {} with skipped | made
  · simp [skipped, behind'.tokens, same]
  · refine absurd ?_ symbol
    simp [made, behind'.tokens, token, Token.spelling]

/-- A blank at the end of a text adds nothing, unless it makes a symbol. -/
theorem ReadsAs.of_append_blank (reads : ReadsAs (t ++ [c]) spelled) (blank : isBlank c = true)
    (symbol : (.symbol, [c]) ∉ spelled) : ReadsAs t spelled := by
  obtain ⟨last, completed, read, ended, rfl⟩ := readsAs_iff.mp reads
  obtain ⟨s, readFront, others⟩ := foldlM_append_eq_ok_iff.mp read
  obtain ⟨next, one, rest⟩ := foldlM_cons_eq_ok_iff.mp others
  cases rest
  unfold State.read at one
  cases here : s.mode.read [] s.position c with
  | error e => rw [here] at one; cases one
  | ok result =>
    rw [here] at one
    cases one
    have symbols : ∀ t ∈ completed ++ result.1, t.spelling ≠ (.symbol, [c]) := by
      intro t member same
      refine symbol (same ▸ List.mem_map_of_mem (List.mem_reverse.mpr ?_))
      rw [← List.append_assoc]
      exact List.mem_append_left _ member
    obtain ⟨made, finished, spelled⟩ := Mode.finish_of_blank blank here ended symbols
    refine readsAs_iff.mpr ⟨s, made, readFront, finished, ?_⟩
    simp only [List.map_reverse, List.map_append, ← List.append_assoc] at spelled ⊢
    rw [spelled]

/-- A text reads as it does without the blanks at its ends, if no blank is a symbol. -/
theorem ReadsAs.strip (reads : ReadsAs t spelled)
    (symbols : ∀ c, isBlank c = true → (.symbol, [c]) ∉ spelled) :
    ReadsAs (strip t) spelled := by
  have behind {blanks : Text} (blank : isBlankText blanks = true) {t : Text}
      (reads : ReadsAs (t ++ blanks) spelled) : ReadsAs t spelled := by
    induction blanks generalizing t with
    | nil => rwa [List.append_nil] at reads
    | cons c blanks ih =>
      simp only [isBlankText, List.all_cons, Bool.and_eq_true] at blank
      rw [← List.singleton_append, ← List.append_assoc] at reads
      exact (ih blank.2 reads).of_append_blank blank.1 (symbols c blank.1)
  have before {blanks : Text} (blank : isBlankText blanks = true) {t : Text}
      (reads : ReadsAs (blanks ++ t) spelled) : ReadsAs t spelled := by
    induction blanks with
    | nil => exact reads
    | cons c blanks ih =>
      simp only [isBlankText, List.all_cons, Bool.and_eq_true] at blank
      exact ih blank.2 (reads.of_blank_cons blank.1 (symbols c blank.1))
  obtain ⟨front, back, blankFront, blankBack, same⟩ := exists_strip_eq t
  rw [same] at reads
  exact before blankFront (behind blankBack reads)

/-- A line without its comment and the blanks at its ends. -/
def bare (line : Text) : Text := strip (line.takeWhile (· ≠ '#'))

theorem ReadsAs.bare {line : Text} (reads : ReadsAs line spelled) (oneLine : '\n' ∉ line)
    (words : ∀ s ∈ spelled, s.1 = .word → '#' ∉ s.2)
    (symbols : ∀ c, isBlank c = true → (.symbol, [c]) ∉ spelled) : ReadsAs (bare line) spelled := by
  refine ReadsAs.strip ?_ symbols
  have whole := List.takeWhile_append_dropWhile (p := (· ≠ '#')) (l := line)
  cases behind : line.dropWhile (· ≠ '#') with
  | nil =>
    rw [behind, List.append_nil] at whole
    rwa [whole]
  | cons c comment =>
    have sign := List.head?_dropWhile_not (· ≠ '#') line
    rw [behind] at whole sign
    obtain rfl : c = '#' := by simpa using sign
    rw [← whole] at reads oneLine
    exact reads.uncommented (fun member => oneLine (by simp [member])) words

end Text
end TapeLang
