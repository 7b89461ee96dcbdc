import TapeLang.Proofs.Token.Spans

/-! What the lexer does with each character of a text. Every one is in the span of one token, in one
comment, or is skipped, and a token has the place at which its span starts. -/
namespace TapeLang

open Lexer

namespace Text

/-- Whether no name leads up to the end of a text, so that a word behind it is a name from its first
letter on. -/
def EndsNoName (before : Text) : Prop := ∀ run, run <:+ before → ¬ IsCallName run

/-- What closes an argument list is no part of a word. -/
theorem IsClosed.not_word_suffix {list run : Text} (closed : list.IsClosed) (inList : run <:+ list)
    (some_char : run ≠ []) : ¬ ∀ c ∈ run, isWord c = true := by
  intro word
  obtain ⟨front, rfl⟩ := inList
  have absent {c : Char} (outside : isWord c = false) : run.count c = 0 :=
    List.count_eq_zero.mpr fun member => by simp [word c member] at outside
  have level := closed.level
  rw [List.count_append, List.count_append, absent (by decide), absent (by decide)] at level
  have nonempty : front ≠ [] := by
    rintro rfl
    obtain ⟨tail, same⟩ := List.head?_eq_some_iff.mp closed.opens
    have opens : isWord '(' = true := word '(' (by simp_all)
    exact absurd opens (by decide)
  have whole := closed.shortest front (List.prefix_append ..) nonempty (by simpa using level)
  exact some_char (by simpa using whole.symm)

end Text

theorem IsCallName.any_isWord {name : Text} (legal : IsCallName name) (rest : Text) :
    (name ++ rest).head?.any Text.isWord = true := by
  obtain ⟨c, tail, rfl⟩ := List.exists_cons_of_ne_nil legal.ne_nil
  simpa using legal.word c List.mem_cons_self

namespace Span

variable {rest run : Text} {span : Span} {spans : List Span}

theorem eq_singleton_of_suffix {c : Char} (inSpan : run <:+ [c]) (some_char : run ≠ []) :
    run = [c] := by
  rcases List.suffix_cons_iff.mp inSpan with same | inNothing
  · exact same
  · exact absurd (List.suffix_nil.mp inNothing) some_char

/-- Where a word character stands behind a span, the span does not end in a name. -/
theorem Stands.endsNoName (stands : span.Stands rest)
    (follows : rest.head?.any Text.isWord = true) : span.text.EndsNoName := by
  intro run inSpan legal
  obtain ⟨next, head, nextWord⟩ := (Option.any_eq_true _ _).mp follows
  have lineGoesOn (ends : rest.AtLineEnd) : False := by
    rw [ends next head] at nextWord
    exact absurd nextWord (by decide)
  cases span with
  | skipped c =>
    obtain rfl := eq_singleton_of_suffix inSpan legal.ne_nil
    have word := legal.word c List.mem_cons_self
    rw [not_isWord_of_isSkipped stands] at word
    cases word
  | symbol c =>
    obtain rfl := eq_singleton_of_suffix inSpan legal.ne_nil
    have letter : Text.isLetter c = true := by simpa using legal.first
    cases letter.symm.trans stands.2.2.2
  | comment content => exact lineGoesOn stands.2
  | declaration kind line => exact lineGoesOn stands.2
  | word name arguments =>
    obtain ⟨-, closed | ⟨-, ends⟩⟩ := stands
    · -- the end of the span holds its closing parenthesis
      rcases List.suffix_or_suffix_of_suffix inSpan (List.suffix_append name arguments) with
        inList | whole
      · exact closed.not_word_suffix inList legal.ne_nil legal.word
      · refine closed.not_word_suffix List.suffix_rfl ?_ fun c member =>
          legal.word c (whole.subset member)
        rintro rfl
        cases closed.opens
    · cases nextWord.symm.trans (ends next head).1

/-- A word that stands behind spans is no part of a longer name. -/
theorem Stand.endsNoName (stand : Stand rest spans)
    (follows : rest.head?.any Text.isWord = true) : Text.EndsNoName (spans.flatMap text) := by
  induction spans with
  | nil =>
    intro run inNothing legal
    exact legal.ne_nil (List.suffix_nil.mp inNothing)
  | cons span spans ih =>
    obtain ⟨first, others⟩ := stand
    intro run inAll legal
    have behind : spans.flatMap text <:+ span.text ++ spans.flatMap text := List.suffix_append ..
    rcases List.suffix_or_suffix_of_suffix inAll behind with later | ⟨front, rfl⟩
    · exact ih others run later legal
    · by_cases nothing : front = []
      · subst nothing
        exact ih others _ List.suffix_rfl legal
      · have inSpan : front <:+ span.text := List.suffix_append_self_iff.mp inAll
        have name : IsCallName front := by
          refine ⟨?_, fun c member => legal.word c (List.mem_append_left _ member)⟩
          simpa [List.head?_append_of_ne_nil _ nothing] using legal.first
        refine first.endsNoName ?_ front inSpan name
        cases between : spans.flatMap text with
        | nil => exact follows
        | cons c tail =>
          have word : Text.isWord c = true :=
            legal.word c (List.mem_append_right _ (between ▸ List.mem_cons_self))
          simpa using word

end Span

/-- How a text is divided. Its tokens stand in order, and each is the text of its span, at the place
of the first character of it, or the text of a declaration behind its sigil. The spans make up the
whole text: what is in none of them with a token is a comment or is skipped. A word is no part of a
longer name. Lexing fails exactly where the arguments of such a word are not closed on its line. -/
theorem tokenize_covers (file text : Text) :
    (∀ tokens, tokenize file text = .ok tokens →
      (tokens.map Token.place).Pairwise (· < ·) ∧
      ∃ spans, text = spans.flatMap Span.text ∧ Span.Stand [] spans ∧
        (∀ front name arguments back, spans = front ++ .word name arguments :: back →
          Text.EndsNoName (front.flatMap Span.text)) ∧
        tokens = Span.tokens [] spans ++ [token .endOfText [] (.behind text)]) ∧
    ((∃ e, tokenize file text = .error e) ↔
      ∃ spans name tail, text = spans.flatMap Span.text ++ (name ++ tail) ∧
        Span.Stand (name ++ tail) spans ∧ Text.EndsNoName (spans.flatMap Span.text) ∧
        IsCallName name ∧ tail.IsUnclosed) := by
  constructor
  · intro tokens lexed
    obtain ⟨spans, rfl, stand, made⟩ := tokenize_eq_ok_iff_stand.mp lexed
    refine ⟨(places_of_tokenize lexed).1, spans, rfl, stand, ?_, made⟩
    rintro front name arguments back rfl
    obtain ⟨before, word, -⟩ := Span.stand_append.mp stand
    refine before.endsNoName ?_
    simpa [Span.text] using word.1.any_isWord (arguments ++ _)
  · constructor
    · rintro ⟨e, refused⟩
      obtain ⟨spans, name, tail, same, stand, legal, unclosed, -⟩ :=
        tokenize_eq_error_iff.mp refused
      exact ⟨spans, name, tail, same, stand, stand.endsNoName (legal.any_isWord tail), legal,
        unclosed⟩
    · rintro ⟨spans, name, tail, same, stand, -, legal, unclosed⟩
      exact ⟨_, tokenize_eq_error_iff.mpr ⟨spans, name, tail, same, stand, legal, unclosed, rfl⟩⟩

/-- Words against symbols, nested arguments, a declaration with a comment on its line, and a comment
that holds a bracket. -/
def mixedText : Text := "ab(c(d);e)1_a- §g = +  # y\n\t[#]\nx".toList

def mixedTokens : List Token :=
  [⟨.word, "ab(c(d);e)".toList, 1, 1⟩, ⟨.symbol, ['1'], 1, 11⟩, ⟨.symbol, ['_'], 1, 12⟩,
   ⟨.word, ['a'], 1, 13⟩, ⟨.symbol, ['-'], 1, 14⟩,
   ⟨.declaration .functionForm, "g = +".toList, 1, 16⟩, ⟨.symbol, ['['], 2, 2⟩,
   ⟨.word, ['x'], 3, 1⟩, ⟨.endOfText, [], 3, 2⟩]

/-- A text with all that the lexer tells apart, and arguments that are closed only on the next
line. -/
theorem tokenize_covers_mixedText :
    (tokenize [] mixedText = .ok mixedTokens ∧
      (mixedTokens.map Token.place).Pairwise (· < ·) ∧
      ∃ spans, mixedText = spans.flatMap Span.text ∧ Span.Stand [] spans ∧
        mixedTokens = Span.tokens [] spans ++ [token .endOfText [] (.behind mixedText)]) ∧
    ∃ (spans : List Span) (name tail : Text),
      "[ f(()\n)".toList = spans.flatMap Span.text ++ (name ++ tail) ∧
      Span.Stand (name ++ tail) spans ∧ IsCallName name ∧ tail.IsUnclosed := by
  constructor
  · have lexed : tokenize [] mixedText = .ok mixedTokens := by decide +kernel
    obtain ⟨ordered, spans, same, stand, -, made⟩ := (tokenize_covers [] mixedText).1 _ lexed
    exact ⟨lexed, ordered, spans, same, stand, made⟩
  · have refused : ∃ e, tokenize [] "[ f(()\n)".toList = .error e :=
      ⟨unterminated [] ⟨1, 3⟩, by decide +kernel⟩
    obtain ⟨spans, name, tail, same, stand, -, legal, unclosed⟩ :=
      (tokenize_covers [] "[ f(()\n)".toList).2.mp refused
    exact ⟨spans, name, tail, same, stand, legal, unclosed⟩

end TapeLang
