import Mathlib.Order.WellFounded
import TapeLang.Proofs.Inlining.Sigils
import TapeLang.Proofs.Token.Positions
import TapeLang.Proofs.Token.Trimmed

/-! How the lexer divides a text. A span is a character that is skipped, a comment, or what becomes
one token, and what may stand behind it is part of what a span is. A span that is read from its
first character to its last completes its token, and spans are read one behind another. Every text
is made of spans, to its end or to a call whose arguments are not closed on their line. -/
namespace TapeLang

namespace Text

/-- Whether nothing more stands on the line. -/
def AtLineEnd (t : Text) : Prop := ∀ c ∈ t.head?, c = '\n'

/-- Whether a word that comes before ends: its name does not go on, and no argument list follows. -/
def AtWordEnd (t : Text) : Prop := ∀ c ∈ t.head?, isWord c = false ∧ c ≠ '('

/-- An argument list: it is closed on its line, as soon as as many parentheses are closed as are
opened. -/
structure IsClosed (list : Text) : Prop where
  opens : list.head? = some '('
  oneLine : '\n' ∉ list
  level : list.count '(' = list.count ')'
  shortest : ∀ front, front <+: list → front ≠ [] → front.count '(' = front.count ')' →
    front = list

/-- An opening parenthesis, and no argument list on its line. -/
structure IsUnclosed (t : Text) : Prop where
  opens : t.head? = some '('
  never : ∀ front, front <+: t → front ≠ [] → '\n' ∉ front → front.count '(' ≠ front.count ')'

theorem exists_shortest {t : Text} {P : Text → Prop} (some_front : ∃ front, front <+: t ∧ P front) :
    ∃ front, front <+: t ∧ P front ∧
      ∀ shorter, shorter <+: front → P shorter → shorter = front := by
  obtain ⟨front, ⟨inFront, holds⟩, least⟩ :=
    WellFounded.has_min (measure List.length).wf {front | front <+: t ∧ P front} some_front
  refine ⟨front, inFront, holds, fun shorter within holds' => ?_⟩
  have most := within.length_le
  have notLess : ¬ shorter.length < front.length := least shorter ⟨within.trans inFront, holds'⟩
  exact within.eq_of_length (by omega)

/-- Behind an opening parenthesis stands an argument list, or it is not closed on its line. -/
theorem exists_isClosed_or (t : Text) (opens : t.head? = some '(') :
    (∃ list rest, t = list ++ rest ∧ list.IsClosed) ∨ t.IsUnclosed := by
  by_cases some_front : ∃ front, front <+: t ∧
      front ≠ [] ∧ '\n' ∉ front ∧ front.count '(' = front.count ')'
  · obtain ⟨list, ⟨rest, rfl⟩, ⟨some_char, oneLine, level⟩, least⟩ := exists_shortest some_front
    refine .inl ⟨list, rest, rfl, ?_, oneLine, level, ?_⟩
    · cases list with
      | nil => exact absurd rfl some_char
      | cons c list => exact opens
    · intro front within nonempty even
      exact least front within ⟨nonempty, fun member => oneLine (within.subset member), even⟩
  · refine .inr ⟨opens, fun front within nonempty oneLine even => some_front ?_⟩
    exact ⟨front, within, nonempty, oneLine, even⟩

end Text

/-- A stretch of a text that the lexer reads as one. -/
inductive Span where
  | skipped (c : Char)
  | comment (content : Text)
  | symbol (c : Char)
  | word (name arguments : Text)
  | declaration (kind : DefinitionKind) (line : Text)
deriving DecidableEq, Repr

namespace Span

def text : Span → Text
  | skipped c | symbol c => [c]
  | comment content => '#' :: content
  | word name arguments => name ++ arguments
  | declaration kind line => kind.sigil :: line

/-- The token that a span becomes at a place. Skipped characters and comments become none. -/
def token? (p : Position) : Span → Option Token
  | skipped _ | comment _ => none
  | symbol c => some (Lexer.token .symbol [c] p)
  | word name arguments => some (Lexer.token .word (name ++ arguments) p)
  | declaration kind line =>
    some (Lexer.token (.declaration kind) (Lexer.declarationText line) p)

/-- Whether a span stands in front of the rest of a text. -/
def Stands (rest : Text) : Span → Prop
  | skipped c => Lexer.isSkipped c = true
  | comment content => '\n' ∉ content ∧ rest.AtLineEnd
  | symbol c => Lexer.isSkipped c = false ∧ c ≠ '#' ∧ DefinitionKind.ofSigil? c = none ∧
      Text.isLetter c = false
  | word name arguments => IsCallName name ∧
      (arguments.IsClosed ∨
        arguments = [] ∧ rest.AtWordEnd)
  | declaration _ line => '\n' ∉ line ∧ rest.AtLineEnd

/-- Whether spans stand one behind another in front of the rest of a text. -/
def Stand (rest : Text) : List Span → Prop
  | [] => True
  | span :: spans => span.Stands (spans.flatMap text ++ rest) ∧ Stand rest spans

theorem stand_append {rest : Text} {front back : List Span} :
    Stand rest (front ++ back) ↔ Stand (back.flatMap text ++ rest) front ∧ Stand rest back := by
  induction front with
  | nil => simp [Stand]
  | cons span front ih => simp [Stand, ih, and_assoc]

end Span

/-- The place behind a text: as many lines as line feeds end, and one more; of the last one, as many
characters as stand on it, and one more. -/
def Position.behind (text : Text) : Position where
  line := text.count '\n' + 1
  column := (text.reverse.takeWhile (· ≠ '\n')).length + 1

theorem Position.behind_concat (text : Text) (c : Char) :
    behind (text ++ [c]) = (behind text).after c := by
  by_cases lineEnd : c = '\n' <;> simp [behind, after, lineEnd]

theorem Position.behind_append (text more : Text) :
    behind (text ++ more) = more.foldl after (behind text) := by
  induction more generalizing text with
  | nil => simp
  | cons c rest ih =>
    rw [List.append_cons, ih, behind_concat, List.foldl_cons]

namespace Lexer

variable {file rest : Text} {c : Char} {s next : State} {mode : Mode} {completed : List Token}

theorem not_isWord_of_isSkipped {c : Char} (skipped : isSkipped c = true) :
    Text.isWord c = false := by
  simp only [isSkipped, Bool.or_eq_true, decide_eq_true_eq] at skipped
  rcases skipped with ((rfl | rfl) | rfl) | rfl <;> decide

/-- The tokens that a text gives when it is read from a state on, to its end. -/
def State.readOn (file : Text) (s : State) (text : Text) : Except SourceError (List Token) :=
  text.foldlM (State.read file) s >>= State.finish file

theorem tokenize_eq_readOn (file text : Text) : tokenize file text = State.readOn file {} text := by
  unfold tokenize State.readOn
  cases text.foldlM (State.read file) {} <;> rfl

theorem State.readOn_cons (read : s.mode.read file s.position c = .ok (completed, mode))
    (rest : Text) : s.readOn file (c :: rest) =
      State.readOn file ⟨mode, s.position.after c, completed ++ s.tokens⟩ rest := by
  rw [readOn, foldlM_read_cons read, readOn]

theorem State.readOn_append {text : Text} (read : text.foldlM (State.read file) s = .ok next)
    (rest : Text) : s.readOn file (text ++ rest) = next.readOn file rest := by
  rw [readOn, foldlM_read_append read, readOn]

theorem State.position_foldlM {text : Text} (read : text.foldlM (State.read file) s = .ok next) :
    next.position = text.foldl Position.after s.position := by
  induction text generalizing s with
  | nil =>
    cases read
    rfl
  | cons c rest ih =>
    obtain ⟨between, one, others⟩ := foldlM_cons_eq_ok_iff.mp read
    rw [ih others, (State.read_places one).1, List.foldl_cons]

/-- Whether what is being read ends in front of the rest of a text. -/
def Mode.EndsBefore (rest : Text) : Mode → Prop
  | .start => True
  | .comment | .declaration .. => rest.AtLineEnd
  | .word .. => rest.AtWordEnd
  | .arguments .. => False

/-- Where what is being read ends, its token is complete. -/
theorem Mode.EndsBefore.readOn (ends : mode.EndsBefore rest)
    (finished : mode.finish file = .ok completed) (p : Position) (tokens : List Token) :
    State.readOn file ⟨mode, p, tokens⟩ rest =
      State.readOn file ⟨.start, p, completed ++ tokens⟩ rest := by
  cases rest with
  | nil =>
    have nothing (s : State) : s.readOn file [] = s.finish file := rfl
    rw [nothing, nothing, State.finish, finished]
    rfl
  | cons c rest =>
    have begun : Mode.start.read file p c = .ok ((begin p c).1, (begin p c).2) := rfl
    have read : mode.read file p c = .ok ((begin p c).1 ++ completed, (begin p c).2) := by
      cases mode with
      | start =>
        cases finished
        simp [begun]
      | comment =>
        cases finished
        obtain rfl : c = '\n' := ends c rfl
        rfl
      | declaration kind origin collected =>
        cases finished
        obtain rfl : c = '\n' := ends c rfl
        rfl
      | word origin collected =>
        cases finished
        obtain ⟨outside, opens⟩ := ends c rfl
        simp [Mode.read, outside, opens]
      | arguments => exact absurd ends id
    rw [State.readOn_cons (s := ⟨mode, p, tokens⟩) read,
      State.readOn_cons (s := ⟨.start, p, completed ++ tokens⟩) begun, List.append_assoc]

/-- Arguments are read up to where they are closed, from any depth. -/
theorem foldlM_read_closing (file : Text) {list : Text} {depth : Nat} (oneLine : '\n' ∉ list)
    (level : list.count ')' = list.count '(' + (depth + 1))
    (shortest : ∀ front, front <+: list → front.count ')' = front.count '(' + (depth + 1) →
      front = list) (origin p : Position) (collected : Text) (tokens : List Token) :
    ∃ q, list.foldlM (State.read file) ⟨.arguments origin collected (depth + 1), p, tokens⟩ =
      .ok ⟨.start, q, wordToken origin (list.reverse ++ collected) :: tokens⟩ := by
  induction list generalizing p collected depth with
  | nil => simp at level
  | cons c rest ih =>
    obtain ⟨inLine, restLine⟩ := List.ne_and_not_mem_of_not_mem_cons oneLine
    have behind {n : Nat} (same : ∀ front : Text, front.count ')' = front.count '(' + (n + 1) →
        (c :: front).count ')' = (c :: front).count '(' + (depth + 1)) :
        ∀ front, front <+: rest → front.count ')' = front.count '(' + (n + 1) → front = rest :=
      fun front within even => (List.cons.inj
        (shortest (c :: front) (List.cons_prefix_cons.mpr ⟨rfl, within⟩) (same front even))).2
    have further {n : Nat}
        (one : (Mode.arguments origin collected (depth + 1)).read file p c =
          .ok ([], .arguments origin (c :: collected) (n + 1)))
        (level : rest.count ')' = rest.count '(' + (n + 1))
        (shortest : ∀ front, front <+: rest → front.count ')' = front.count '(' + (n + 1) →
          front = rest) :
        ∃ q, (c :: rest).foldlM (State.read file)
            ⟨.arguments origin collected (depth + 1), p, tokens⟩ =
          .ok ⟨.start, q, wordToken origin ((c :: rest).reverse ++ collected) :: tokens⟩ := by
      obtain ⟨q, read⟩ := ih restLine level shortest (p.after c) (c :: collected)
      refine ⟨q, ?_⟩
      rw [foldlM_read_cons (s := ⟨.arguments origin collected (depth + 1), p, tokens⟩) one]
      simpa using read
    by_cases opens : c = '('
    · subst opens
      exact further (n := depth + 1) rfl (by simp at level; omega) (behind (by simp; omega))
    · by_cases closes : c = ')'
      · subst closes
        cases depth with
        | zero =>
          obtain rfl : [] = rest := (List.cons.inj (shortest [')'] (by simp) rfl)).2
          exact ⟨p.after ')', rfl⟩
        | succ outer =>
          exact further (n := outer) rfl (by simp at level; omega) (behind (by simp; omega))
      · have other : c ≠ '\n' := Ne.symm inLine
        exact further (n := depth) (by simp [Mode.read, other, opens, closes])
          (by simpa [opens, closes] using level) (behind (by simp [opens, closes]))

/-- Arguments that are nowhere closed on the line are refused, for the place of their name. -/
theorem readOn_unclosed (file : Text) {rest : Text} {depth : Nat}
    (never : ∀ front, front <+: rest → '\n' ∉ front →
      front.count ')' ≠ front.count '(' + (depth + 1))
    (origin p : Position) (collected : Text) (tokens : List Token) :
    State.readOn file ⟨.arguments origin collected (depth + 1), p, tokens⟩ rest =
      .error (unterminated file origin) := by
  induction rest generalizing p collected depth with
  | nil => rfl
  | cons c rest ih =>
    have further {n : Nat} (inLine : c ≠ '\n')
        (one : (Mode.arguments origin collected (depth + 1)).read file p c =
          .ok ([], .arguments origin (c :: collected) (n + 1)))
        (same : ∀ front : Text, front.count ')' = front.count '(' + (n + 1) →
          (c :: front).count ')' = (c :: front).count '(' + (depth + 1)) :
        State.readOn file ⟨.arguments origin collected (depth + 1), p, tokens⟩ (c :: rest) =
          .error (unterminated file origin) := by
      rw [State.readOn_cons (s := ⟨.arguments origin collected (depth + 1), p, tokens⟩) one]
      refine ih (fun front within oneLine even => ?_) _ _
      exact never (c :: front) (List.cons_prefix_cons.mpr ⟨rfl, within⟩)
        (List.not_mem_cons_of_ne_of_not_mem inLine.symm oneLine) (same front even)
    by_cases lineEnd : c = '\n'
    · subst lineEnd
      rfl
    · by_cases opens : c = '('
      · subst opens
        exact further (n := depth + 1) lineEnd rfl (by simp; omega)
      · by_cases closes : c = ')'
        · subst closes
          cases depth with
          | zero => exact absurd rfl (never [')'] (by simp) (by decide))
          | succ outer => exact further (n := outer) lineEnd rfl (by simp; omega)
        · exact further (n := depth) lineEnd (by simp [Mode.read, lineEnd, opens, closes])
            (by simp [opens, closes])

/-- What is read behind a text leaves off behind both. -/
theorem State.readOn_behind {before text : Text} {tokens made : List Token}
    (read : ∃ q, text.foldlM (State.read file) ⟨.start, .behind before, tokens⟩ =
      .ok ⟨mode, q, made⟩) (rest : Text) :
    State.readOn file ⟨.start, .behind before, tokens⟩ (text ++ rest) =
      State.readOn file ⟨mode, .behind (before ++ text), made⟩ rest := by
  obtain ⟨q, read⟩ := read
  have position : q = text.foldl Position.after (.behind before) := State.position_foldlM read
  rw [State.readOn_append read, position, Position.behind_append]

theorem foldlM_read_list (file : Text) {name list : Text} (legal : IsCallName name)
    (closed : list.IsClosed) (p : Position) (tokens : List Token) :
    ∃ q, (name ++ list).foldlM (State.read file) ⟨.start, p, tokens⟩ =
      .ok ⟨.start, q, token .word (name ++ list) p :: tokens⟩ := by
  obtain ⟨opens, oneLine, level, shortest⟩ := closed
  obtain ⟨tail, rfl⟩ := List.head?_eq_some_iff.mp opens
  obtain ⟨q, readName⟩ := foldlM_read_start file legal p tokens
  have one : (Mode.word p name.reverse).read file q '(' =
      .ok ([], .arguments p ('(' :: name.reverse) 1) := rfl
  have level : tail.count ')' = tail.count '(' + (0 + 1) := by simpa using level.symm
  have shortest : ∀ front, front <+: tail → front.count ')' = front.count '(' + (0 + 1) →
      front = tail := fun front within even =>
    (List.cons.inj (shortest ('(' :: front) (List.cons_prefix_cons.mpr ⟨rfl, within⟩) (by simp)
      (by simpa using even.symm))).2
  obtain ⟨r, readList⟩ := foldlM_read_closing file (List.ne_and_not_mem_of_not_mem_cons oneLine).2
    level shortest p (q.after '(') ('(' :: name.reverse) tokens
  refine ⟨r, ?_⟩
  rw [foldlM_read_append readName,
    foldlM_read_cons (s := ⟨.word p name.reverse, q, tokens⟩) one]
  simpa [wordToken] using readList

end Lexer

open Lexer

variable {file rest : Text} {span : Span}

/-- A span is read from its first character to its last. -/
theorem Span.Stands.readOn (stands : span.Stands rest) (before : Text) (tokens : List Token) :
    State.readOn file ⟨.start, .behind before, tokens⟩ (span.text ++ rest) =
      State.readOn file ⟨.start, .behind (before ++ span.text),
        (span.token? (.behind before)).toList ++ tokens⟩ rest := by
  cases span with
  | skipped c =>
    refine State.readOn_behind ⟨(Position.behind before).after c, ?_⟩ rest
    have one : Mode.start.read file (.behind before) c = .ok ([], .start) := by
      simp [Mode.read, begin, show isSkipped c = true from stands]
    exact foldlM_read_cons (s := ⟨.start, .behind before, tokens⟩) one []
  | symbol c =>
    obtain ⟨ink, sign, sigil, letter⟩ := stands
    refine State.readOn_behind ⟨(Position.behind before).after c, ?_⟩ rest
    have one : Mode.start.read file (.behind before) c =
        .ok ([token .symbol [c] (.behind before)], .start) := by
      simp [Mode.read, begin, ink, sign, sigil, letter]
    exact foldlM_read_cons (s := ⟨.start, .behind before, tokens⟩) one []
  | comment content =>
    obtain ⟨oneLine, ends⟩ := stands
    obtain ⟨q, read⟩ :=
      foldlM_read_comment file oneLine ((Position.behind before).after '#') tokens
    have read : ∃ q, (comment content).text.foldlM (State.read file)
        ⟨.start, .behind before, tokens⟩ = .ok ⟨.comment, q, tokens⟩ := ⟨q, read⟩
    have ends : Mode.EndsBefore rest .comment := ends
    rw [State.readOn_behind read, ends.readOn rfl]
    rfl
  | word name arguments =>
    obtain ⟨legal, closed | ⟨rfl, ends⟩⟩ := stands
    · exact State.readOn_behind (foldlM_read_list file legal closed _ tokens) rest
    · have read := foldlM_read_start file legal (.behind before) tokens
      have ends : Mode.EndsBefore rest (.word (.behind before) name.reverse) := ends
      rw [Span.text, List.append_nil, State.readOn_behind read, ends.readOn rfl]
      simp [token?, wordToken]
  | declaration kind line =>
    obtain ⟨oneLine, ends⟩ := stands
    have starts : Mode.start.read file (.behind before) kind.sigil =
        .ok ([], .declaration kind (.behind before) []) := by
      cases kind <;> rfl
    obtain ⟨q, read⟩ := foldlM_read_declaration file oneLine kind (.behind before)
      ((Position.behind before).after kind.sigil) [] tokens
    have read : ∃ q, (declaration kind line).text.foldlM (State.read file)
        ⟨.start, .behind before, tokens⟩ =
          .ok ⟨.declaration kind (.behind before) (line.reverse ++ []), q, tokens⟩ :=
      ⟨q, (foldlM_read_cons (s := ⟨.start, .behind before, tokens⟩) starts line).trans read⟩
    have ends : Mode.EndsBefore rest
      (.declaration kind (.behind before) (line.reverse ++ [])) := ends
    rw [State.readOn_behind read, ends.readOn rfl]
    simp [token?, declarationToken]

namespace Span

/-- The tokens of spans behind a text. -/
def tokens (before : Text) : List Span → List Token
  | [] => []
  | span :: spans => (span.token? (.behind before)).toList ++ tokens (before ++ span.text) spans

theorem tokens_append (before : Text) (front back : List Span) :
    tokens before (front ++ back) =
      tokens before front ++ tokens (before ++ front.flatMap text) back := by
  induction front generalizing before with
  | nil => simp [tokens]
  | cons span front ih => simp [tokens, ih]

/-- Spans are read one behind another. -/
theorem readOn_of_stand {spans : List Span} (stand : Stand rest spans) (before : Text)
    (made : List Token) :
    State.readOn file ⟨.start, .behind before, made⟩ (spans.flatMap text ++ rest) =
      State.readOn file ⟨.start, .behind (before ++ spans.flatMap text),
        (tokens before spans).reverse ++ made⟩ rest := by
  induction spans generalizing before made with
  | nil => simp [tokens]
  | cons span spans ih =>
    obtain ⟨first, others⟩ := stand
    have single : (span.token? (.behind before)).toList.reverse =
        (span.token? (.behind before)).toList := by
      cases span.token? (.behind before) <;> rfl
    rw [List.flatMap_cons, List.append_assoc, first.readOn, ih others]
    simp [tokens, single]

end Span

/-- A name in front of arguments that are not closed is refused in its place. -/
theorem readOn_unclosedCall {name : Text} (legal : IsCallName name) (unclosed : rest.IsUnclosed)
    (p : Position) (made : List Token) :
    State.readOn file ⟨.start, p, made⟩ (name ++ rest) = .error (unterminated file p) := by
  obtain ⟨opens, never⟩ := unclosed
  obtain ⟨tail, rfl⟩ := List.head?_eq_some_iff.mp opens
  obtain ⟨q, readName⟩ := foldlM_read_start file legal p made
  have one : (Mode.word p name.reverse).read file q '(' =
      .ok ([], .arguments p ('(' :: name.reverse) (0 + 1)) := rfl
  rw [State.readOn_append readName, State.readOn_cons (s := ⟨.word p name.reverse, q, made⟩) one]
  refine readOn_unclosed file (fun front within oneLine even => ?_) _ _ _ _
  exact never ('(' :: front) (List.cons_prefix_cons.mpr ⟨rfl, within⟩) (by simp)
    (List.not_mem_cons_of_ne_of_not_mem (by decide) oneLine) (by simpa using even.symm)

theorem Text.atLineEnd_dropWhile (t : Text) : AtLineEnd (t.dropWhile (· ≠ '\n')) := by
  intro c first
  have stops := List.head?_dropWhile_not (· ≠ '\n') t
  rw [Option.mem_def.mp first] at stops
  simpa using stops

theorem Text.not_mem_takeWhile_line (t : Text) : '\n' ∉ t.takeWhile (· ≠ '\n') := by
  intro member
  have := List.all_eq_true.mp List.all_takeWhile _ member
  simp at this

/-- Where a token may start, a span stands or a call whose arguments are not closed. -/
theorem exists_span_or {t : Text} (some_char : t ≠ []) :
    (∃ (span : Span) (rest : Text), t = span.text ++ rest ∧ span.Stands rest) ∨
      ∃ name rest, t = name ++ rest ∧ IsCallName name ∧ rest.IsUnclosed := by
  obtain ⟨c, tail, rfl⟩ := List.exists_cons_of_ne_nil some_char
  have line : tail = tail.takeWhile (· ≠ '\n') ++ tail.dropWhile (· ≠ '\n') :=
    List.takeWhile_append_dropWhile.symm
  have oneLine := Text.not_mem_takeWhile_line tail
  have ends := Text.atLineEnd_dropWhile tail
  by_cases skipped : isSkipped c = true
  · exact .inl ⟨.skipped c, tail, rfl, skipped⟩
  rw [Bool.not_eq_true] at skipped
  by_cases sign : c = '#'
  · exact .inl ⟨.comment _, _, by rw [sign, Span.text, List.cons_append, ← line], oneLine, ends⟩
  cases sigil : DefinitionKind.ofSigil? c with
  | some kind =>
    refine .inl ⟨.declaration kind _, _, ?_, oneLine, ends⟩
    rw [DefinitionKind.eq_sigil_of_ofSigil? sigil, Span.text, List.cons_append, ← line]
  | none =>
    cases letter : Text.isLetter c with
    | false => exact .inl ⟨.symbol c, tail, rfl, skipped, sign, sigil, letter⟩
    | true =>
      have legal : IsCallName (c :: tail.takeWhile Text.isWord) := by
        refine ⟨by simpa using letter, List.forall_mem_cons.mpr ⟨isWord_of_isLetter letter, ?_⟩⟩
        exact List.all_eq_true.mp List.all_takeWhile
      have split : c :: tail = (c :: tail.takeWhile Text.isWord) ++ tail.dropWhile Text.isWord := by
        rw [List.cons_append, List.takeWhile_append_dropWhile]
      have outside : ∀ d ∈ (tail.dropWhile Text.isWord).head?, Text.isWord d = false := by
        intro d first
        have stops := List.head?_dropWhile_not Text.isWord tail
        rw [Option.mem_def.mp first] at stops
        simpa using stops
      by_cases opens : (tail.dropWhile Text.isWord).head? = some '('
      · rcases Text.exists_isClosed_or _ opens with ⟨list, rest, same, closed⟩ | unclosed
        · refine .inl ⟨.word _ list, rest, ?_, legal, .inl closed⟩
          rw [Span.text, List.append_assoc, ← same]
          exact split
        · exact .inr ⟨_, _, split, legal, unclosed⟩
      · refine .inl ⟨.word _ [], _, ?_, legal, .inr ⟨rfl, fun d first => ⟨outside d first, ?_⟩⟩⟩
        · rw [Span.text, List.append_nil]
          exact split
        · rintro rfl
          exact opens first

theorem Span.text_ne_nil (stands : span.Stands rest) : span.text ≠ [] := by
  cases span with
  | word name arguments => simp [text, stands.1.ne_nil]
  | skipped | symbol | comment | declaration => simp [text]

/-- A text is made of spans up to its end, or up to a call whose arguments are not closed. -/
theorem exists_stand (t : Text) : ∃ spans rest, t = spans.flatMap Span.text ++ rest ∧
    Span.Stand rest spans ∧
    (rest = [] ∨ ∃ name tail, rest = name ++ tail ∧ IsCallName name ∧ tail.IsUnclosed) := by
  -- a span that stands in front takes away at least one character
  induction size : t.length using Nat.strongRecOn generalizing t with
  | _ n ih =>
    by_cases some_char : t = []
    · exact ⟨[], [], some_char, trivial, .inl rfl⟩
    rcases exists_span_or some_char with ⟨span, tail, rfl, stands⟩ | unclosed
    · have shorter : tail.length < n := by
        have := List.length_pos_iff.mpr (Span.text_ne_nil stands)
        rw [List.length_append] at size
        omega
      obtain ⟨spans, rest, rfl, stand, ends⟩ := ih _ shorter tail rfl
      exact ⟨span :: spans, rest, by simp, ⟨stands, stand⟩, ends⟩
    · exact ⟨[], t, rfl, trivial, .inr unclosed⟩

theorem tokenize_of_stand {spans : List Span} (stand : Span.Stand [] spans) (file : Text) :
    tokenize file (spans.flatMap Span.text) = .ok (Span.tokens [] spans ++
      [token .endOfText [] (.behind (spans.flatMap Span.text))]) := by
  have read : State.readOn file {} (spans.flatMap Span.text ++ []) =
      State.readOn file ⟨.start, .behind (spans.flatMap Span.text),
        (Span.tokens [] spans).reverse ++ []⟩ [] := Span.readOn_of_stand stand [] []
  rw [List.append_nil, List.append_nil] at read
  rw [tokenize_eq_readOn, read]
  simp [State.readOn, State.finish, Mode.finish, pure, Except.pure, bind, Except.bind]

theorem tokenize_of_unclosed {spans : List Span} {name tail : Text}
    (stand : Span.Stand (name ++ tail) spans) (legal : IsCallName name)
    (unclosed : tail.IsUnclosed) (file : Text) :
    tokenize file (spans.flatMap Span.text ++ (name ++ tail)) =
      .error (unterminated file (.behind (spans.flatMap Span.text))) := by
  rw [tokenize_eq_readOn]
  exact (Span.readOn_of_stand stand [] []).trans (readOn_unclosedCall legal unclosed _ _)

/-- A text lexes exactly when it is made of spans to its end, and then into their tokens. -/
theorem tokenize_eq_ok_iff_stand {text : Text} {tokens : List Token} :
    tokenize file text = .ok tokens ↔ ∃ spans, text = spans.flatMap Span.text ∧
      Span.Stand [] spans ∧
      tokens = Span.tokens [] spans ++ [token .endOfText [] (.behind text)] := by
  constructor
  · intro lexed
    obtain ⟨spans, rest, rfl, stand, rfl | ⟨name, tail, rfl, legal, unclosed⟩⟩ := exists_stand text
    · rw [List.append_nil] at lexed ⊢
      exact ⟨spans, rfl, stand, Except.ok.inj (lexed.symm.trans (tokenize_of_stand stand file))⟩
    · cases lexed.symm.trans (tokenize_of_unclosed stand legal unclosed file)
  · rintro ⟨spans, rfl, stand, rfl⟩
    exact tokenize_of_stand stand file

/-- A text does not lex exactly when it is made of spans to a call whose arguments are not closed,
and then for the place of that call. -/
theorem tokenize_eq_error_iff {text : Text} {e : SourceError} :
    tokenize file text = .error e ↔ ∃ spans name tail,
      text = spans.flatMap Span.text ++ (name ++ tail) ∧ Span.Stand (name ++ tail) spans ∧
      IsCallName name ∧ tail.IsUnclosed ∧
      e = unterminated file (.behind (spans.flatMap Span.text)) := by
  constructor
  · intro refused
    obtain ⟨spans, rest, rfl, stand, rfl | ⟨name, tail, rfl, legal, unclosed⟩⟩ := exists_stand text
    · rw [List.append_nil] at refused
      cases refused.symm.trans (tokenize_of_stand stand file)
    · exact ⟨spans, name, tail, rfl, stand, legal, unclosed,
        Except.error.inj (refused.symm.trans (tokenize_of_unclosed stand legal unclosed file))⟩
  · rintro ⟨spans, name, tail, rfl, stand, legal, unclosed, rfl⟩
    exact tokenize_of_unclosed stand legal unclosed file

end TapeLang
