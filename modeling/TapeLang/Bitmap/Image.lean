import TapeLang.Text.Basic

/-! Images with one colour at each point. -/
namespace TapeLang

/-- A colour in red, green and blue. -/
structure Colour where
  red : UInt8
  green : UInt8
  blue : UInt8
deriving DecidableEq, Repr

namespace Colour

def black : Colour := ⟨0, 0, 0⟩

def ofGrey (level : UInt8) : Colour := ⟨level, level, level⟩

/-- Six upper-case hexadecimal digits. -/
def code (c : Colour) : Text :=
  Text.upperAscii
    (Text.hex 2 c.red.toNat ++ Text.hex 2 c.green.toNat ++ Text.hex 2 c.blue.toNat)

end Colour

/-- An image; points outside of its size do not matter. Rows go down from zero. -/
structure Image where
  width : Nat
  height : Nat
  pixel : Nat → Nat → Colour

namespace Image

/-- The image with these rows, all of one width. -/
def ofRows (width : Nat) (rows : Array (Array Colour)) : Image :=
  { width, height := rows.size
    pixel := fun x y => ((rows[y]?).bind (·[x]?)).getD Colour.black }

/-- The colours of the rows, from the top. -/
def rows (image : Image) : List (List Colour) :=
  (List.range image.height).map fun y =>
    (List.range image.width).map fun x => image.pixel x y

/-- Whether both images show the same. -/
def Same (a b : Image) : Prop :=
  a.width = b.width ∧ a.height = b.height ∧
    ∀ x y, x < a.width → y < a.height → a.pixel x y = b.pixel x y

end Image
end TapeLang
