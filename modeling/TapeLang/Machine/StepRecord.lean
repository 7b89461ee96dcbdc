import TapeLang.Instruction
import TapeLang.Tape

/-! The record of a completed step, and its line in a trace. -/
namespace TapeLang

structure StepRecord where
  index : Nat
  frame : Nat
  cursor : Nat
  label : Text
  location : Option Location
  pointer : Nat
  cell : UInt8
  snapshot : Option (List (Nat × UInt8))
deriving DecidableEq, Repr

/-- The name of a frame number. -/
def frameName (number : Nat) : Text := "f_".toList ++ Text.padded 4 number

/-- A cell and its value. -/
def cellText (cell : Nat × UInt8) : Text :=
  'C' :: Text.ofNat cell.1 ++ '=' :: Text.ofNat cell.2.toNat

namespace StepRecord

def id (e : StepRecord) : Text := "s_".toList ++ Text.padded 6 e.index

/-- The line that a trace shows. -/
def line (e : StepRecord) : Text :=
  e.id ++ ' ' :: frameName e.frame ++ " ip=".toList ++ Text.ofNat e.cursor ++ ' ' :: e.label ++
    " dp=".toList ++ Text.ofNat e.pointer ++ ' ' :: cellText (e.pointer, e.cell) ++
    match e.snapshot with
    | none => []
    | some cells => " [".toList ++ Text.join [' '] (cells.map cellText) ++ [']']

end StepRecord
end TapeLang
