import TapeLang.Bitmap.Image
import TapeLang.Instruction
import TapeLang.Token

/-! Programs drawn as images. Every command is a square block of one colour; blocks go from
left to right and from top to bottom on a square canvas, whose last blocks stay black. -/
namespace TapeLang

namespace Command

def colour : Command → Colour
  | act .increment => ⟨0xFF, 0xFF, 0xFF⟩
  | act .decrement => ⟨0x4B, 0x00, 0x82⟩
  | act .left => ⟨0x94, 0x00, 0xD3⟩
  | act .right => ⟨0x00, 0x00, 0xFF⟩
  | act .output => ⟨0x00, 0xFF, 0x00⟩
  | act .input => ⟨0xFF, 0xFF, 0x00⟩
  | jump => ⟨0xFF, 0x7F, 0x00⟩
  | back => ⟨0xFF, 0x00, 0x00⟩

/-- The command drawn in a colour. -/
def ofColour? (c : Colour) : Option Command := all.find? (·.colour = c)

theorem ofColour?_colour (c : Command) : ofColour? c.colour = some c := by
  cases c with
  | act action => cases action <;> rfl
  | jump => rfl
  | back => rfl

theorem colour_ne_black (c : Command) : c.colour ≠ Colour.black := by
  cases c with
  | act action => cases action <;> decide
  | jump => decide
  | back => decide

end Command

namespace Bitmap

/-- Pixels along the side of a block unless told otherwise. -/
def usualSide : Nat := 3

/-- The commands of a list of instructions; calls have no colour. -/
def commands (instructions : Array Instruction) : Except SourceError (Array Command) :=
  instructions.mapM fun i =>
    match i.op with
    | .command c => .ok c
    | .call .. => .error ⟨.uncolouredCall i.op.symbol, i.location⟩

/-- The least side, one or more, of a square that holds the count. -/
def squareSide (count : Nat) : Nat :=
  ((List.range' 1 count).find? fun k => count ≤ k * k).getD 1

theorem squareSide_pos (count : Nat) : 0 < squareSide count := by
  unfold squareSide
  cases found : (List.range' 1 count).find? fun k => count ≤ k * k with
  | none => exact Nat.one_pos
  | some k =>
    have := List.mem_range'_1.mp (List.mem_of_find?_eq_some found)
    exact this.1

theorem le_squareSide_sq (count : Nat) : count ≤ squareSide count * squareSide count := by
  unfold squareSide
  cases found : (List.range' 1 count).find? fun k => count ≤ k * k with
  | some k => simpa using List.find?_some found
  | none =>
    rcases Nat.eq_zero_or_pos count with zero | positive
    · simp [zero]
    · have missing := List.find?_eq_none.mp found count (List.mem_range'_1.mpr (by omega))
      exact absurd (Nat.le_mul_self count) (by simpa using missing)

/-- No smaller square holds the count. -/
theorem squareSide_le {count k : Nat} (positive : 0 < k) (holds : count ≤ k * k) :
    squareSide count ≤ k := by
  unfold squareSide
  cases found : (List.range' 1 count).find? fun k => count ≤ k * k with
  | none => exact positive
  | some least =>
    obtain ⟨_, before, after, split, earlier⟩ := List.find?_eq_some_iff_append.mp found
    rcases Nat.lt_or_ge k least with less | done
    · have inside : k ∈ List.range' 1 count := by
        have := List.mem_range'_1.mp (List.mem_of_find?_eq_some found)
        exact List.mem_range'_1.mpr (by omega)
      have sorted : (List.range' 1 count).Pairwise (· < ·) := List.pairwise_lt_range'
      rw [split] at inside sorted
      rcases List.mem_append.mp inside with early | late
      · exact absurd holds (by simpa using earlier k early)
      · rcases List.mem_cons.mp late with same | later
        · omega
        · have := (List.pairwise_cons.mp (List.pairwise_append.mp sorted).2.1).1 k later
          omega
    · exact done

/-- The colour of a block; blocks behind the commands are black. -/
def blockColour (cs : Array Command) (index : Nat) : Colour :=
  ((cs[index]?).map Command.colour).getD Colour.black

/-- Draws commands on a canvas of a number of blocks in each row. -/
def draw (cs : Array Command) (side : Nat) : Image :=
  let columns := squareSide cs.size
  { width := columns * side, height := columns * side
    pixel := fun x y => blockColour cs (y / side * columns + x / side) }

/-- The image of a list of instructions. -/
def encode (instructions : Array Instruction) (side : Nat := usualSide) :
    Except SourceError Image :=
  (commands instructions).map (draw · side)

/-- Whether the block at a point has one colour. -/
def isUniform (image : Image) (side x y : Nat) : Bool :=
  (List.range side).all fun dy => (List.range side).all fun dx =>
    image.pixel (x + dx) (y + dy) = image.pixel x y

/-- The token of the block in a row and a column counted from zero; black has none. -/
def readBlock (image : Image) (side row column : Nat) : Except SourceError (Option Token) :=
  let (x, y) := (column * side, row * side)
  if !isUniform image side x y then .error ⟨.mixedBlock x y, none⟩
  else if image.pixel x y = Colour.black then .ok none
  else match Command.ofColour? (image.pixel x y) with
    | none => .error ⟨.unknownColour (image.pixel x y).code (row + 1) (column + 1), none⟩
    | some c => .ok (some ⟨.symbol, [c.symbol], (row + 1 : Nat), (column + 1 : Nat)⟩)

/-- The places of the blocks in reading order. -/
def blockPlaces (rows columns : Nat) : List (Nat × Nat) :=
  (List.range rows).flatMap fun row => (List.range columns).map fun column => (row, column)

/-- The tokens that an image draws, closed by the end-of-text token on the line behind the
last row of blocks. Rows of a side below zero count downwards and hold no block. -/
def decode (image : Image) (side : Int := usualSide) : Except SourceError (List Token) := do
  if ¬(side ∣ image.height ∧ side ∣ image.width) then
    throw ⟨.raggedImage image.width image.height side, none⟩
  let (rows, columns) := (image.height / side, image.width / side)
  let tokens ← (blockPlaces rows.toNat columns.toNat).mapM
    fun (row, column) => readBlock image side.toNat row column
  return tokens.filterMap id ++ [⟨.endOfText, [], rows + 1, 1⟩]

end Bitmap
end TapeLang
