import Mathlib.Data.Prod.Lex
import TapeLang.Proofs.Token.Lines

/-! Where tokens stand. A token has the place at which it was begun, and each one is begun behind
all that were begun before it. -/
namespace TapeLang

/-- A line and a column, in the order of reading. -/
abbrev Place := Int ×ₗ Int

def Position.place (p : Position) : Place := toLex ((p.line : Int), (p.column : Int))

def Token.place (t : Token) : Place := toLex (t.line, t.column)

def Location.place (l : Location) : Place := toLex (l.line, l.column)

theorem Source.place_locate (source : Source) (t : Token) : (source.locate t).place = t.place := rfl

/-- Reading goes forward. -/
theorem Position.place_lt_after (p : Position) (c : Char) : p.place < (p.after c).place := by
  simp only [after, place]
  split
  · exact Prod.Lex.toLex_lt_toLex.mpr (.inl (Int.ofNat_lt.mpr (Nat.lt_succ_self _)))
  · exact Prod.Lex.toLex_lt_toLex.mpr (.inr ⟨rfl, Int.ofNat_lt.mpr (Nat.lt_succ_self _)⟩)

/-- A line feed is the end of a line. -/
theorem Position.line_foldl_after (text : Text) (p : Position) :
    (text.foldl after p).line = p.line + text.count '\n' := by
  induction text generalizing p with
  | nil => rfl
  | cons c rest ih =>
    by_cases lineEnd : c = '\n'
    · simp [ih, after, lineEnd]
      omega
    · simp [ih, after, lineEnd]

namespace Lexer

/-- Where the token that is being collected was begun. -/
def Mode.begun : Mode → List Place
  | .start | .comment => []
  | .declaration _ origin _ | .word origin _ | .arguments origin _ _ => [origin.place]

variable {file : Text} {p : Position} {c : Char} {mode after : Mode} {completed : List Token}

/-- What a character begins, it begins in its own place. -/
theorem begin_places (p : Position) (c : Char) :
    (begin p c).2.begun ++ (begin p c).1.map Token.place = [] ∨
      (begin p c).2.begun ++ (begin p c).1.map Token.place = [p.place] := by
  unfold begin
  repeat' split
  · exact .inl rfl
  · exact .inl rfl
  · exact .inr rfl
  · exact .inr rfl
  · exact .inr rfl

/-- A character leaves the places of what was begun, or adds its own in front of them. -/
theorem Mode.read_places (read : mode.read file p c = .ok (completed, after)) :
    after.begun ++ completed.map Token.place = mode.begun ∨
      after.begun ++ completed.map Token.place = p.place :: mode.begun := by
  cases mode with
  | start =>
    have begun := begin_places p c
    rwa [show begin p c = (completed, after) from Except.ok.inj read] at begun
  | comment =>
    cases read
    left
    split <;> rfl
  | declaration kind origin collected =>
    have same := Except.ok.inj read
    left
    split at same <;> cases same <;> rfl
  | word origin collected =>
    have same := Except.ok.inj read
    split at same
    · cases same
      exact .inl rfl
    · split at same <;> cases same
      · exact .inl rfl
      · rw [List.map_append, ← List.append_assoc]
        rcases begin_places p c with nothing | here
        · left
          rw [nothing]
          rfl
        · right
          rw [here]
          rfl
  | arguments origin collected depth =>
    left
    simp only [Mode.read] at read
    repeat' split at read
    all_goals cases read
    all_goals rfl

/-- The places of all that was begun, the latest first. -/
def State.places (s : State) : List Place := s.mode.begun ++ s.tokens.map Token.place

/-- A character moves the place of reading, where it may begin a token. -/
theorem State.read_places {s next : State} (read : s.read file c = .ok next) :
    next.position = s.position.after c ∧
      next.places.Sublist (s.position.place :: s.places) := by
  unfold State.read at read
  cases one : s.mode.read file s.position c with
  | error e => rw [one] at read; cases read
  | ok result =>
    obtain ⟨completed, mode⟩ := result
    rw [one] at read
    cases read
    refine ⟨rfl, ?_⟩
    simp only [State.places, List.map_append, ← List.append_assoc]
    rcases Mode.read_places one with same | begun
    · rw [same]
      exact .cons _ (.refl _)
    · rw [begun]
      exact .refl _

/-- All that was begun stands behind what was begun before it and before what comes, and nothing
stands before the first line. -/
structure State.Ordered (s : State) : Prop where
  behind : (s.position.place :: s.places).Pairwise (· > ·)
  first : ∀ place ∈ s.position.place :: s.places, 1 ≤ (ofLex place).1

theorem State.Ordered.read {s next : State} (ordered : s.Ordered)
    (read : s.read file c = .ok next) : next.Ordered := by
  obtain ⟨position, sublist⟩ := State.read_places read
  have further := s.position.place_lt_after c
  have all : ((s.position.after c).place :: s.position.place :: s.places).Pairwise (· > ·) := by
    refine List.pairwise_cons.mpr ⟨?_, ordered.behind⟩
    intro place member
    rcases List.mem_cons.mp member with rfl | earlier
    · exact further
    · exact ((List.pairwise_cons.mp ordered.behind).1 place earlier).trans further
  refine ⟨?_, ?_⟩
  · rw [position]
    exact all.sublist (sublist.cons_cons _)
  · rw [position]
    refine List.forall_mem_cons.mpr ⟨?_, fun place member => ordered.first place
      (sublist.subset member)⟩
    exact (ordered.first _ List.mem_cons_self).trans (Prod.Lex.toLex_lt_toLex'.mp further).1

theorem State.Ordered.foldlM {s last : State} {text : Text} (ordered : s.Ordered)
    (read : text.foldlM (State.read file) s = .ok last) :
    last.Ordered ∧ last.position = text.foldl Position.after s.position := by
  induction text generalizing s with
  | nil =>
    cases read
    exact ⟨ordered, rfl⟩
  | cons c rest ih =>
    obtain ⟨next, one, others⟩ := foldlM_cons_eq_ok_iff.mp read
    obtain ⟨last, position⟩ := ih (ordered.read one) others
    exact ⟨last, by rw [position, List.foldl_cons, (State.read_places one).1]⟩

/-- The end of a text completes what was begun. -/
theorem Mode.finish_places (finished : mode.finish file = .ok completed) :
    completed.map Token.place = mode.begun := by
  cases mode with
  | arguments => cases finished
  | start | comment | declaration | word => cases finished; rfl

end Lexer

open Lexer

/-- Each token stands behind all that come before it, on one of the lines of the text. -/
theorem places_of_tokenize {file text : Text} {tokens : List Token}
    (lexed : tokenize file text = .ok tokens) :
    (tokens.map Token.place).Pairwise (· < ·) ∧
      ∀ t ∈ tokens, 1 ≤ t.line ∧ t.line ≤ text.count '\n' + 1 := by
  obtain ⟨s, read, finished⟩ := tokenize_eq_ok_iff.mp lexed
  obtain ⟨completed, ended, rfl⟩ := State.finish_eq_ok_iff.mp finished
  have start : State.Ordered {} :=
    ⟨List.pairwise_singleton _ _, List.forall_mem_singleton.mpr (le_refl 1)⟩
  obtain ⟨⟨behind, first⟩, position⟩ := start.foldlM read
  have same : ((completed ++ s.tokens).reverse ++ [token .endOfText [] s.position]).map Token.place =
      (s.position.place :: s.places).reverse := by
    rw [State.places, ← Mode.finish_places ended]
    simp [Token.place, Position.place, token]
  constructor
  · rw [same, List.pairwise_reverse]
    exact behind
  · intro t member
    have listed : t.place ∈ s.position.place :: s.places :=
      List.mem_reverse.mp (same ▸ List.mem_map_of_mem member)
    refine ⟨first _ listed, ?_⟩
    have last : s.position.line = text.count '\n' + 1 := by
      rw [position, Position.line_foldl_after]
      exact Nat.add_comm _ _
    have within : t.place ≤ s.position.place := by
      rcases List.mem_cons.mp listed with here | earlier
      · exact here.le
      · exact ((List.pairwise_cons.mp behind).1 _ earlier).le
    have before : t.line ≤ s.position.line := (Prod.Lex.toLex_le_toLex'.mp within).1
    omega

/-- The last token, and no other, is the end of the text. -/
theorem exists_concat_of_tokenize {file text : Text} {tokens : List Token}
    (lexed : tokenize file text = .ok tokens) :
    ∃ front last, tokens = front ++ [last] ∧ last.kind = .endOfText ∧
      ∀ t ∈ front, t.kind ≠ .endOfText := by
  have nothing : tokenize file [] = .ok [token .endOfText [] {}] := rfl
  obtain ⟨front, last, -, split, ended, unended, -⟩ := exists_tokenize_join lexed nothing file
  exact ⟨front, last, split, ended, unended⟩

end TapeLang
