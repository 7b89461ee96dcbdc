import TapeLang.Text.Basic

/-! Classes of characters that have no character in common. -/
namespace TapeLang

namespace CharRanges

/-- Whether no point lies in ranges of both lists. -/
def apart (a b : List (Nat × Nat)) : Bool :=
  a.all fun r => b.all fun q => Nat.blt r.2 q.1 || Nat.blt q.2 r.1

theorem exists_range {ranges : List (Nat × Nat)} {n : Nat} (inside : contains ranges n = true) :
    ∃ r ∈ ranges, r.1 ≤ n ∧ n ≤ r.2 := by
  induction ranges with
  | nil => cases inside
  | cons r rest ih =>
    obtain ⟨low, high⟩ := r
    simp only [contains] at inside
    by_cases below : n < low
    · simp [below] at inside
    · by_cases within : n ≤ high
      · exact ⟨(low, high), List.mem_cons_self, Nat.le_of_not_lt below, within⟩
      · simp only [below, within, if_false] at inside
        obtain ⟨q, listed, bounds⟩ := ih inside
        exact ⟨q, List.mem_cons_of_mem _ listed, bounds⟩

theorem contains_of_apart {a b : List (Nat × Nat)} (separate : apart a b = true) {n : Nat}
    (inside : contains a n = true) : contains b n = false := by
  apply Bool.eq_false_iff.mpr
  intro inside'
  obtain ⟨r, listed, low, high⟩ := exists_range inside
  obtain ⟨q, listed', low', high'⟩ := exists_range inside'
  have beside := List.all_eq_true.mp (List.all_eq_true.mp separate r listed) q listed'
  simp only [Bool.or_eq_true, Nat.blt_eq] at beside
  omega

theorem letters_apart_decimals : apart letters decimals = true := by decide +kernel

end CharRanges

namespace Text

open CharRanges

variable {c d : Char}

/-- A letter can start the name of a declaration. -/
theorem isNameStart_of_isLetter (letter : isLetter c = true) : isNameStart c = true := by
  have other : isDecimal c = false := contains_of_apart letters_apart_decimals letter
  simp [isNameStart, isAlphanumeric, letter, other]

theorem ne_of_isBlank (blank : isBlank c = true) (ink : isBlank d = false) : c ≠ d := by
  rintro rfl
  cases ink.symm.trans blank

/-- A blank stands in no word. -/
theorem isWord_of_isBlank (blank : isBlank c = true) : isWord c = false := by
  have letter : isLetter c = false := contains_of_apart (by decide +kernel) blank
  have decimal : isDecimal c = false := contains_of_apart (by decide +kernel) blank
  have other : isOtherNumeric c = false := contains_of_apart (by decide +kernel) blank
  simp [isWord, isAlphanumeric, letter, decimal, other, ne_of_isBlank blank (d := '_') rfl]

end Text
end TapeLang
