import TapeLang.Definition.Arguments
import TapeLang.Proofs.Text

/-! Argument lists survive joining and splitting. The invariant is the depth of parentheses:
an argument closes what it opens, closes nothing else, and has no semicolon outside. -/
namespace TapeLang

namespace Text

/-- The depth of parentheses behind a text that starts at a depth. There is none if a
parenthesis closes nothing, or if a refused character stands outside of all parentheses. -/
def nesting (refused : Char → Bool) : Nat → Text → Option Nat
  | depth, [] => some depth
  | depth, c :: rest =>
    if c = '(' then nesting refused (depth + 1) rest
    else if c = ')' then
      match depth with
      | 0 => none
      | outer + 1 => nesting refused outer rest
    else if depth == 0 && refused c then none
    else nesting refused depth rest

def Balanced (t : Text) : Prop := nesting (fun _ => false) 0 t = some 0

variable {refused : Char → Bool}

theorem nesting_append (depth : Nat) (a b : Text) :
    nesting refused depth (a ++ b) = (nesting refused depth a).bind (nesting refused · b) := by
  induction a generalizing depth with
  | nil => rfl
  | cons c rest ih =>
    simp only [List.cons_append, nesting]
    split
    · exact ih _
    · split
      · cases depth with
        | zero => rfl
        | succ outer => exact ih _
      · split
        · rfl
        · exact ih _

/-- What the first character of a text with a depth behind it can be. -/
theorem nesting_cons_cases {depth after : Nat} {c : Char} {rest : Text}
    (nested : nesting refused depth (c :: rest) = some after) :
    (c = '(' ∧ nesting refused (depth + 1) rest = some after) ∨
    (c = ')' ∧ ∃ outer, depth = outer + 1 ∧ nesting refused outer rest = some after) ∨
    (c ≠ '(' ∧ c ≠ ')' ∧ (depth == 0 && refused c) = false ∧
      nesting refused depth rest = some after) := by
  simp only [nesting] at nested
  split at nested
  · rename_i opens
    exact .inl ⟨opens, nested⟩
  · rename_i opens
    split at nested
    · rename_i closes
      cases depth with
      | zero => cases nested
      | succ outer => exact .inr (.inl ⟨closes, outer, rfl, nested⟩)
    · rename_i closes
      split at nested
      · cases nested
      · rename_i kept
        exact .inr (.inr ⟨opens, closes, by simpa using kept, nested⟩)

theorem nesting_of_refusing {depth after : Nat} {t : Text}
    (nested : nesting refused depth t = some after) :
    nesting (fun _ => false) depth t = some after := by
  induction t generalizing depth with
  | nil => exact nested
  | cons c rest ih =>
    rcases nesting_cons_cases nested with ⟨rfl, inner⟩ | ⟨rfl, outer, rfl, inner⟩ |
      ⟨opens, closes, -, inner⟩
    · simp only [nesting, if_true, ih inner]
    · simpa [nesting] using ih inner
    · simpa [nesting, opens, closes] using ih inner

/-- Blanks leave the depth as it is. -/
theorem nesting_blank {t : Text} (blank : isBlankText t = true)
    (accepted : ∀ c, isBlank c = true → refused c = false) (depth : Nat) :
    nesting refused depth t = some depth := by
  induction t with
  | nil => rfl
  | cons c rest ih =>
    simp only [isBlankText, List.all_cons, Bool.and_eq_true] at blank
    have opens : c ≠ '(' := by rintro rfl; exact absurd blank.1 (by decide)
    have closes : c ≠ ')' := by rintro rfl; exact absurd blank.1 (by decide)
    simp only [nesting, opens, closes, if_false, accepted c blank.1, Bool.and_false,
      Bool.false_eq_true]
    exact ih blank.2

theorem nesting_strip (accepted : ∀ c, isBlank c = true → refused c = false) (depth : Nat)
    (t : Text) : nesting refused depth (strip t) = nesting refused depth t := by
  obtain ⟨before, after, blankBefore, blankAfter, same⟩ := exists_strip_eq t
  conv => rhs; rw [same]
  rw [nesting_append, nesting_append, nesting_blank blankBefore accepted, Option.bind_some]
  cases nesting refused depth (strip t) with
  | none => rfl
  | some inner => exact (nesting_blank blankAfter accepted inner).symm

end Text

def isSeparator (c : Char) : Bool := c == ';'

theorem isSeparator_of_isBlank (c : Char) (blank : Text.isBlank c = true) :
    isSeparator c = false := by
  rw [isSeparator, beq_eq_false_iff_ne]
  rintro rfl
  exact absurd blank (by decide)

/-- What can stand as an argument: stripped, balanced, and undivided by semicolons. -/
structure IsArgument (a : Text) : Prop where
  stripped : Text.strip a = a
  whole : Text.nesting isSeparator 0 a = some 0

theorem argumentPieces_ne_nil (depth : Int) (raw : Text) : argumentPieces depth raw ≠ [] := by
  cases raw with
  | nil => simp [argumentPieces]
  | cons c rest =>
    unfold argumentPieces
    generalize (if c = '(' then depth + 1 else if c = ')' then depth - 1 else depth) = inner
    dsimp only
    split
    · simp
    · split <;> simp

theorem argumentPieces_open (depth : Int) (rest : Text) :
    argumentPieces depth ('(' :: rest) =
      (argumentPieces (depth + 1) rest).modifyHead ('(' :: ·) := by
  obtain ⟨first, others, found⟩ := List.exists_cons_of_ne_nil (argumentPieces_ne_nil (depth + 1) rest)
  simp [argumentPieces, found]

theorem argumentPieces_close (depth : Int) (rest : Text) :
    argumentPieces (depth + 1) (')' :: rest) =
      (argumentPieces depth rest).modifyHead (')' :: ·) := by
  obtain ⟨first, others, found⟩ := List.exists_cons_of_ne_nil (argumentPieces_ne_nil depth rest)
  simp [argumentPieces, found]

theorem argumentPieces_separator (rest : Text) :
    argumentPieces 0 (';' :: rest) = [] :: argumentPieces 0 rest := by
  simp [argumentPieces]

theorem argumentPieces_other {depth : Int} {c : Char} (opens : c ≠ '(') (closes : c ≠ ')')
    (kept : (depth == 0 && isSeparator c) = false) (rest : Text) :
    argumentPieces depth (c :: rest) = (argumentPieces depth rest).modifyHead (c :: ·) := by
  obtain ⟨first, others, found⟩ := List.exists_cons_of_ne_nil (argumentPieces_ne_nil depth rest)
  rw [Bool.and_comm] at kept
  simp only [argumentPieces, opens, closes, if_false, found, List.modifyHead_cons]
  rw [if_neg]
  rw [isSeparator] at kept
  simpa using kept

theorem argumentPieces_of_nesting {depth : Nat} {a : Text}
    (whole : Text.nesting isSeparator depth a = some 0) : argumentPieces depth a = [a] := by
  induction a generalizing depth with
  | nil => rfl
  | cons c rest ih =>
    rcases Text.nesting_cons_cases whole with ⟨rfl, inner⟩ | ⟨rfl, outer, rfl, inner⟩ |
      ⟨opens, closes, kept, inner⟩
    · rw [argumentPieces_open, ← Int.natCast_succ, ih inner]
      rfl
    · rw [Int.natCast_succ, argumentPieces_close, ih inner]
      rfl
    · rw [argumentPieces_other opens closes (by simpa using kept), ih inner]
      rfl

theorem argumentPieces_append {depth : Nat} {a : Text}
    (whole : Text.nesting isSeparator depth a = some 0) (rest : Text) :
    argumentPieces depth (a ++ ';' :: rest) = a :: argumentPieces 0 rest := by
  induction a generalizing depth with
  | nil =>
    cases whole
    exact argumentPieces_separator rest
  | cons c tail ih =>
    rw [List.cons_append]
    rcases Text.nesting_cons_cases whole with ⟨rfl, inner⟩ | ⟨rfl, outer, rfl, inner⟩ |
      ⟨opens, closes, kept, inner⟩
    · rw [argumentPieces_open, ← Int.natCast_succ, ih inner]
      rfl
    · rw [Int.natCast_succ, argumentPieces_close, ih inner]
      rfl
    · rw [argumentPieces_other opens closes (by simpa using kept), ih inner]
      rfl

/-- Splitting undoes joining, for pieces that are whole. -/
theorem argumentPieces_join {args : List Text} (some_arg : args ≠ [])
    (whole : ∀ a ∈ args, Text.nesting isSeparator 0 a = some 0) :
    argumentPieces 0 (Text.join [';'] args) = args := by
  induction args with
  | nil => exact absurd rfl some_arg
  | cons a rest ih =>
    cases rest with
    | nil =>
      rw [Text.join, List.intercalate_singleton]
      exact argumentPieces_of_nesting (whole a (by simp))
    | cons next others =>
      have tail := ih (List.cons_ne_nil _ _) (fun b member => whole b (List.mem_cons_of_mem _ member))
      have first : argumentPieces 0 (a ++ ';' :: Text.join [';'] (next :: others)) =
          a :: argumentPieces 0 (Text.join [';'] (next :: others)) :=
        argumentPieces_append (whole a (by simp)) _
      rw [Text.join_cons_cons, first, tail]

/-- The pieces of a text that ends outside of all parentheses are whole, the first one from
the depth at which the text starts. -/
theorem argumentPieces_whole {depth : Nat} {raw : Text}
    (nested : Text.nesting (fun _ => false) depth raw = some 0) :
    ∃ first others, argumentPieces depth raw = first :: others ∧
      Text.nesting isSeparator depth first = some 0 ∧
      ∀ a ∈ others, Text.nesting isSeparator 0 a = some 0 := by
  induction raw generalizing depth with
  | nil => exact ⟨[], [], rfl, by simpa [Text.nesting] using nested, by simp⟩
  | cons c rest ih =>
    rcases Text.nesting_cons_cases nested with ⟨rfl, inner⟩ | ⟨rfl, outer, rfl, inner⟩ |
      ⟨opens, closes, -, inner⟩
    · obtain ⟨first, others, found, whole, tail⟩ := ih inner
      refine ⟨'(' :: first, others, ?_, by simpa [Text.nesting] using whole, tail⟩
      rw [argumentPieces_open, ← Int.natCast_succ, found, List.modifyHead_cons]
    · obtain ⟨first, others, found, whole, tail⟩ := ih inner
      refine ⟨')' :: first, others, ?_, by simpa [Text.nesting] using whole, tail⟩
      rw [Int.natCast_succ, argumentPieces_close, found, List.modifyHead_cons]
    · obtain ⟨first, others, found, whole, tail⟩ := ih inner
      cases kept : depth == 0 && isSeparator c with
      | true =>
        obtain ⟨rfl, rfl⟩ : depth = 0 ∧ c = ';' := by simpa [isSeparator] using kept
        refine ⟨[], first :: others, ?_, rfl, ?_⟩
        · rw [Int.natCast_zero] at found ⊢
          rw [argumentPieces_separator, found]
        · intro a member
          rcases List.mem_cons.mp member with rfl | later
          · exact whole
          · exact tail a later
      | false =>
        refine ⟨c :: first, others, ?_, ?_, tail⟩
        · rw [argumentPieces_other opens closes (by simpa using kept), found,
            List.modifyHead_cons]
        · simp only [Text.nesting, opens, closes, kept, if_false, Bool.false_eq_true, whole]

theorem join_argumentPieces (depth : Int) (raw : Text) :
    Text.join [';'] (argumentPieces depth raw) = raw := by
  induction raw generalizing depth with
  | nil => rfl
  | cons c rest ih =>
    unfold argumentPieces
    generalize (if c = '(' then depth + 1 else if c = ')' then depth - 1 else depth) = inner
    have joined := ih inner
    obtain ⟨first, others, found⟩ := List.exists_cons_of_ne_nil (argumentPieces_ne_nil inner rest)
    rw [found] at joined
    simp only [found]
    split
    · rename_i divides
      simp only [Bool.and_eq_true, decide_eq_true_eq] at divides
      rw [divides.1, Text.join, List.intercalate_cons_cons, ← Text.join, joined]
      rfl
    · rw [Text.join, List.intercalate_cons_cons_left, ← Text.join, joined]

/-- What can be a list of arguments: any arguments except one empty text alone, which reads
as no argument. -/
structure IsArgumentList (args : List Text) : Prop where
  each : ∀ a ∈ args, IsArgument a
  notBlank : args ≠ [[]]

theorem argumentList_of_balanced {raw : Text} (balanced : Text.Balanced raw) :
    IsArgumentList (argumentList raw) := by
  unfold argumentList
  split
  · exact ⟨by simp, by simp⟩
  · rename_i ink
    obtain ⟨first, others, found, whole, tail⟩ := argumentPieces_whole balanced
    have joined := join_argumentPieces 0 raw
    rw [Int.natCast_zero] at found
    rw [found] at joined ⊢
    refine ⟨?_, ?_⟩
    · intro a member
      obtain ⟨piece, listed, rfl⟩ := List.mem_map.mp member
      refine ⟨Text.strip_idem piece, ?_⟩
      rw [Text.nesting_strip isSeparator_of_isBlank]
      rcases List.mem_cons.mp listed with rfl | later
      · exact whole
      · exact tail piece later
    · intro same
      have single : others = [] := by simpa using congrArg List.length same
      subst single
      rw [Text.join, List.intercalate_singleton] at joined
      subst joined
      exact ink (Text.strip_eq_nil_iff.mp (by simpa using same))

theorem mem_argumentList {raw a : Text} (listed : a ∈ argumentList raw) {c : Char}
    (member : c ∈ a) : c ∈ raw := by
  unfold argumentList at listed
  split at listed
  · cases listed
  · obtain ⟨piece, found, rfl⟩ := List.mem_map.mp listed
    have inPiece := Text.mem_of_mem_strip member
    rw [← join_argumentPieces 0 raw]
    obtain ⟨before, after, same⟩ := List.append_of_mem found
    rw [same]
    exact mem_join_of_mem before after inPiece
where
  mem_join_of_mem (before after : List Text) {piece : Text} {c : Char} (member : c ∈ piece) :
      c ∈ Text.join [';'] (before ++ piece :: after) := by
    induction before with
    | nil => cases after <;> simp [Text.join, member]
    | cons first rest ih =>
      cases rest <;> simp_all [Text.join]

/-- Reading a joined list of arguments gives the list back. -/
theorem argumentList_join {args : List Text} (legal : IsArgumentList args) :
    argumentList (Text.join [';'] args) = args := by
  have stripped : args.map Text.strip = args := by
    rw [List.map_congr_left (fun a member => (legal.each a member).stripped), List.map_id']
  cases args with
  | nil => rfl
  | cons a rest =>
    have ink : Text.isBlankText (Text.join [';'] (a :: rest)) ≠ true := by
      intro blank
      cases rest with
      | nil =>
        have empty := Text.strip_eq_nil_iff.mpr blank
        rw [Text.join, List.intercalate_singleton, (legal.each a (by simp)).stripped] at empty
        exact legal.notBlank (by rw [empty])
      | cons next others =>
        rw [Text.join_cons_cons] at blank
        simp only [Text.isBlankText, List.all_append, List.all_cons, Bool.and_eq_true] at blank
        exact absurd blank.2.1 (by decide)
    rw [argumentList, if_neg ink,
      argumentPieces_join (List.cons_ne_nil _ _) (fun b member => (legal.each b member).whole)]
    exact stripped

theorem balanced_join {args : List Text} (legal : ∀ a ∈ args, IsArgument a) :
    Text.Balanced (Text.join [';'] args) := by
  have balanced {a : Text} (member : a ∈ args) : Text.Balanced a :=
    Text.nesting_of_refusing (legal a member).whole
  clear legal
  unfold Text.Balanced at *
  induction args with
  | nil => rfl
  | cons a rest ih =>
    have tail := ih (fun member => balanced (List.mem_cons_of_mem _ member))
    have head := balanced (List.mem_cons_self (a := a) (l := rest))
    cases rest with
    | nil => simpa [Text.join] using head
    | cons next others =>
      rw [Text.join, List.intercalate_cons_cons, Text.nesting_append, Text.nesting_append, head]
      exact tail

end TapeLang
