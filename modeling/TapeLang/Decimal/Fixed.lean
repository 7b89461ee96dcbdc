import TapeLang.Text.Basic

/-! Decimal numerals with a fixed number of places. The value is taken exactly from the
binary floating-point number; a tie goes to the even neighbour. -/
namespace TapeLang.Decimal

/-- The nearest natural number to a quotient, a half going to the even one. -/
def roundHalfEven (numerator denominator : Nat) : Nat :=
  let quotient := numerator / denominator
  let twice := 2 * (numerator % denominator)
  if twice < denominator then quotient
  else if denominator < twice then quotient + 1
  else quotient + quotient % 2

/-- The result is within a half of the quotient. -/
theorem roundHalfEven_near (numerator : Nat) {denominator : Nat} (positive : 0 < denominator) :
    2 * numerator ≤ 2 * (denominator * roundHalfEven numerator denominator) + denominator ∧
      2 * (denominator * roundHalfEven numerator denominator) ≤ 2 * numerator + denominator := by
  have whole := Nat.div_add_mod numerator denominator
  have rest := Nat.mod_lt numerator positive
  have step := Nat.mul_add_one denominator (numerator / denominator)
  unfold roundHalfEven
  rcases Nat.mod_two_eq_zero_or_one (numerator / denominator) with even | odd
  · simp only [even, Nat.add_zero]
    split
    · omega
    · split <;> omega
  · simp only [odd]
    split
    · omega
    · split <;> omega

/-- A half goes to the even neighbour. -/
theorem roundHalfEven_tie {numerator denominator : Nat}
    (tie : 2 * (numerator % denominator) = denominator) :
    roundHalfEven numerator denominator % 2 = 0 := by
  unfold roundHalfEven
  simp only [tie, Nat.lt_irrefl, if_false]
  omega

/-- A finite number as a sign and a fraction of natural numbers. -/
structure Exact where
  negative : Bool
  numerator : Nat
  denominator : Nat

/-- The exact value of the bits of a binary64 number; none for infinities and no-numbers. -/
def Exact.ofBits? (bits : Nat) : Option Exact :=
  let exponent := bits / Nat.pow 2 52 % Nat.pow 2 11
  let fraction := bits % Nat.pow 2 52
  if exponent = 2047 then none
  else
    let mantissa := if exponent = 0 then fraction else Nat.pow 2 52 + fraction
    let power := max exponent 1
    some ⟨bits / Nat.pow 2 63 = 1, mantissa * Nat.pow 2 (power - 1075),
      Nat.pow 2 (1075 - power)⟩

/-- The digits with a point before the last places; the sign of zero is kept. -/
def fixed (places : Nat) (x : Exact) : Text :=
  let scale := Nat.pow 10 places
  let units := roundHalfEven (x.numerator * scale) x.denominator
  (if x.negative then ['-'] else []) ++ Text.ofNat (units / scale) ++
    '.' :: Text.padded places (units % scale)

end TapeLang.Decimal
