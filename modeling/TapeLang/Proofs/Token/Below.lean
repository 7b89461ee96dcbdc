import TapeLang.Proofs.Token.Spans
import TapeLang.Proofs.Token.Statements

/-! A text below another one. The line feed between two texts is in no span, so each of them is
divided as it is alone, and the second has its tokens further down by as many lines as the first one
has. -/
namespace TapeLang

open Lexer

/-- A token further down. -/
def Token.below (lines : Nat) (t : Token) : Token := { t with line := t.line + lines }

/-- A text behind others, further down by their lines. -/
theorem Position.behind_below (first second : Text) :
    behind (first ++ '\n' :: second) =
      ⟨(behind second).line + (Text.pieces '\n' first).length, (behind second).column⟩ := by
  have lines : (first ++ '\n' :: second).count '\n' =
      second.count '\n' + (first.count '\n' + 1) := by
    rw [List.count_append, List.count_cons_self]
    omega
  have column : (first ++ '\n' :: second).reverse.takeWhile (· ≠ '\n') =
      second.reverse.takeWhile (· ≠ '\n') := by
    rw [List.reverse_append, List.reverse_cons, List.append_assoc, List.takeWhile_append]
    split
    · rename_i whole
      rw [List.singleton_append, List.takeWhile_cons_of_neg (by decide), List.append_nil]
      exact ((List.takeWhile_prefix _).eq_of_length whole).symm
    · rfl
  rw [behind, behind, Text.length_pieces, lines, column, Nat.add_right_comm]

namespace Text

/-- The end of a line is an end for what the end of a text is one for. -/
theorem head?_append_lineEnd {P : Char → Prop} (lineEnd : P '\n') {t : Text}
    (ends : ∀ c ∈ t.head?, P c) (more : Text) : ∀ c ∈ (t ++ '\n' :: more).head?, P c := by
  cases t with
  | nil =>
    rintro c ⟨⟩
    exact lineEnd
  | cons d rest => exact ends

theorem IsUnclosed.append_lineEnd {t : Text} (unclosed : t.IsUnclosed) (more : Text) :
    IsUnclosed (t ++ '\n' :: more) := by
  obtain ⟨opens, never⟩ := unclosed
  obtain ⟨tail, rfl⟩ := List.head?_eq_some_iff.mp opens
  refine ⟨rfl, fun front within nonempty oneLine => never front ?_ nonempty oneLine⟩
  rcases List.prefix_or_prefix_of_prefix within (List.prefix_append ..) with inside | ⟨rest, rfl⟩
  · exact inside
  · cases rest with
    | nil => simp
    | cons c rest =>
      obtain ⟨back, same⟩ := within
      have lineEnd : c = '\n' := by simpa using congrArg List.head? (List.append_cancel_left
        ((List.append_assoc ..).symm.trans same))
      exact absurd (by simp [lineEnd]) oneLine

end Text

namespace Span

variable {span : Span} {spans : List Span} {rest : Text}

/-- A span stands in front of a line end if it does so in front of the end of the text. -/
theorem Stands.append_lineEnd (stands : span.Stands rest) (more : Text) :
    span.Stands (rest ++ '\n' :: more) := by
  cases span with
  | skipped | symbol => exact stands
  | comment | declaration =>
    exact ⟨stands.1, Text.head?_append_lineEnd (P := (· = '\n')) rfl stands.2 more⟩
  | word name arguments =>
    obtain ⟨legal, closed | ⟨nothing, ends⟩⟩ := stands
    · exact ⟨legal, .inl closed⟩
    · exact ⟨legal, .inr ⟨nothing, Text.head?_append_lineEnd (by decide) ends more⟩⟩

theorem Stand.append_lineEnd (stand : Stand rest spans) (more : Text) :
    Stand (rest ++ '\n' :: more) spans := by
  induction spans with
  | nil => trivial
  | cons span spans ih =>
    obtain ⟨first, others⟩ := stand
    refine ⟨?_, ih others⟩
    rw [← List.append_assoc]
    exact first.append_lineEnd more

/-- Spans of two texts, with the line feed between them. -/
theorem Stand.below {front back : List Span} (stand : Stand [] front) (stand' : Stand rest back) :
    Stand rest (front ++ .skipped '\n' :: back) := by
  refine stand_append.mpr ⟨?_, rfl, stand'⟩
  exact stand.append_lineEnd (back.flatMap text ++ rest)

theorem token?_below (first before : Text) (span : Span) :
    span.token? (.behind (first ++ '\n' :: before)) =
      (span.token? (.behind before)).map (Token.below (Text.pieces '\n' first).length) := by
  rw [Position.behind_below]
  cases span <;> simp [token?, token, Token.below]

theorem tokens_below (first before : Text) (spans : List Span) :
    tokens (first ++ '\n' :: before) spans =
      (tokens before spans).map (Token.below (Text.pieces '\n' first).length) := by
  induction spans generalizing before with
  | nil => rfl
  | cons span spans ih =>
    have behind := ih (before ++ span.text)
    rw [tokens, token?_below, List.append_assoc, List.cons_append, behind, tokens, List.map_append,
      Option.toList_map]

end Span

section

variable {file first second : Text} {tokens more : List Token} {e : SourceError}

/-- A text is refused as its first lines are. -/
theorem tokenize_below_of_error (refused : tokenize file first = .error e) (second : Text) :
    tokenize file (first ++ '\n' :: second) = .error e := by
  obtain ⟨spans, name, tail, rfl, stand, legal, unclosed, rfl⟩ := tokenize_eq_error_iff.mp refused
  refine tokenize_eq_error_iff.mpr ⟨spans, name, tail ++ '\n' :: second, ?_, ?_, legal,
    unclosed.append_lineEnd second, rfl⟩
  · simp only [List.append_assoc]
  · rw [← List.append_assoc]
    exact stand.append_lineEnd second

/-- What is refused behind some lines is refused for its place behind them. -/
theorem tokenize_below_of_ok_of_error (lexed : tokenize file first = .ok tokens)
    (refused : tokenize file second = .error e) :
    ∃ p : Position, e = unterminated file p ∧ tokenize file (first ++ '\n' :: second) =
      .error (unterminated file ⟨p.line + (Text.pieces '\n' first).length, p.column⟩) := by
  obtain ⟨spans, rfl, stand, -⟩ := tokenize_eq_ok_iff_stand.mp lexed
  obtain ⟨spans', name, tail, rfl, stand', legal, unclosed, rfl⟩ :=
    tokenize_eq_error_iff.mp refused
  refine ⟨_, rfl, tokenize_eq_error_iff.mpr
    ⟨spans ++ .skipped '\n' :: spans', name, tail, ?_, stand.below stand', legal, unclosed, ?_⟩⟩
  · simp [Span.text]
  · rw [← Position.behind_below, List.flatMap_append, List.flatMap_cons]
    rfl

theorem tokenize_below_of_ok (lexed : tokenize file first = .ok tokens)
    (lexed' : tokenize file second = .ok more) :
    ∃ front last, tokens = front ++ [last] ∧ last.kind = .endOfText ∧
      tokenize file (first ++ '\n' :: second) =
        .ok (front ++ more.map (Token.below (Text.pieces '\n' first).length)) ∧
      ∃ spans spans', first = spans.flatMap Span.text ∧ second = spans'.flatMap Span.text ∧
        Span.Stand [] (spans ++ .skipped '\n' :: spans') := by
  obtain ⟨spans, same, stand, rfl⟩ := tokenize_eq_ok_iff_stand.mp lexed
  obtain ⟨spans', same', stand', rfl⟩ := tokenize_eq_ok_iff_stand.mp lexed'
  refine ⟨_, _, rfl, rfl, ?_, spans, spans', same, same', stand.below stand'⟩
  refine tokenize_eq_ok_iff_stand.mpr ⟨_, ?_, stand.below stand', ?_⟩
  · rw [same, same', List.flatMap_append, List.flatMap_cons]
    rfl
  · have behind := Span.tokens_below first [] spans'
    rw [Span.tokens_append, List.nil_append, ← same, Span.tokens]
    simp only [Span.token?, Option.toList_none, List.nil_append, Span.text, behind,
      Position.behind_below, List.map_append, List.append_assoc]
    simp [token, Token.below]

end

/-- Two texts with a line feed between them. Lexing fails exactly if it fails for one of them, and
else gives the tokens of the first one up to its end and those of the second one further down. The
line feed is skipped: nothing that stands in front of it goes on behind it. -/
theorem tokenize_below (file first second : Text) :
    ((∃ e, tokenize file (first ++ '\n' :: second) = .error e) ↔
      (∃ e, tokenize file first = .error e) ∨ ∃ e, tokenize file second = .error e) ∧
    ∀ tokens more, tokenize file first = .ok tokens → tokenize file second = .ok more →
      ∃ front last, tokens = front ++ [last] ∧ last.kind = .endOfText ∧
        tokenize file (first ++ '\n' :: second) =
          .ok (front ++ more.map (Token.below (Text.pieces '\n' first).length)) ∧
        ∃ spans spans', first = spans.flatMap Span.text ∧ second = spans'.flatMap Span.text ∧
          Span.Stand [] (spans ++ .skipped '\n' :: spans') := by
  refine ⟨?fails, fun tokens more lexed lexed' => tokenize_below_of_ok lexed lexed'⟩
  cases lexed : tokenize file first with
  | error e => exact iff_of_true ⟨e, tokenize_below_of_error lexed second⟩ (.inl ⟨e, rfl⟩)
  | ok tokens =>
    cases lexed' : tokenize file second with
    | error e =>
      obtain ⟨p, -, refused⟩ := tokenize_below_of_ok_of_error lexed lexed'
      exact iff_of_true ⟨_, refused⟩ (.inr ⟨e, rfl⟩)
    | ok more =>
      obtain ⟨_, _, -, -, both, -⟩ := tokenize_below_of_ok lexed lexed'
      refine iff_of_false ?_ (by simp)
      rintro ⟨e, refused⟩
      cases refused.symm.trans both

/-- A comment with a parenthesis in front of the line feed, and a declaration behind it. -/
theorem tokenize_below_declaration :
    ∃ tokens more front last, tokenize [] "f(x;\ty)>  # (\n[".toList = .ok tokens ∧
      tokenize [] "\n$m = f(# \n]m".toList = .ok more ∧ tokens = front ++ [last] ∧
      last.kind = .endOfText ∧
      tokenize [] ("f(x;\ty)>  # (\n[".toList ++ '\n' :: "\n$m = f(# \n]m".toList) =
        .ok (front ++ more.map (Token.below 2)) := by
  have lexed : tokenize [] "f(x;\ty)>  # (\n[".toList = .ok
      [⟨.word, "f(x;\ty)".toList, 1, 1⟩, ⟨.symbol, ['>'], 1, 8⟩, ⟨.symbol, ['['], 2, 1⟩,
        ⟨.endOfText, [], 2, 2⟩] := by decide +kernel
  have lexed' : tokenize [] "\n$m = f(# \n]m".toList = .ok
      [⟨.declaration .macroForm, "m = f(".toList, 2, 1⟩, ⟨.symbol, [']'], 3, 1⟩,
        ⟨.word, ['m'], 3, 2⟩, ⟨.endOfText, [], 3, 3⟩] := by decide +kernel
  obtain ⟨front, last, split, ends, joined, -⟩ := (tokenize_below [] _ _).2 _ _ lexed lexed'
  exact ⟨_, _, front, last, lexed, lexed', split, ends, joined⟩

end TapeLang
