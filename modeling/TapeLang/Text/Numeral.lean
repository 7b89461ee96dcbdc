import TapeLang.Text.Basic

/-! Integers as users write them: blanks around, a sign, and decimal digits of any script
with single underscores between them. -/
namespace TapeLang.Text

/-- The value of digits behind a number; an underscore must stand between two digits. -/
def digitsValue? (value : Nat) : Text → Option Nat
  | [] => some value
  | '_' :: c :: rest => do digitsValue? (10 * value + (← digitValue? c)) rest
  | c :: rest => do digitsValue? (10 * value + (← digitValue? c)) rest

def natValue? : Text → Option Nat
  | [] => none
  | c :: rest => do digitsValue? (← digitValue? c) rest

def intValue? (t : Text) : Option Int :=
  match strip t with
  | '-' :: rest => (natValue? rest).map fun n => -(n : Int)
  | '+' :: rest => (natValue? rest).map fun n => (n : Int)
  | t => (natValue? t).map fun n => (n : Int)

end TapeLang.Text
