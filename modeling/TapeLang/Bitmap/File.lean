import TapeLang.Bitmap

/-! Bitmap files: uncompressed, 24 bits for each pixel in the order blue, green, red, rows
from the bottom up and padded with zeros to a multiple of four bytes. -/
namespace TapeLang.Bitmap

/-- A number in so many bytes, the low one first. -/
def littleEndian : Nat → Nat → List UInt8
  | 0, _ => []
  | width + 1, n => UInt8.ofNat (n % 256) :: littleEndian width (n / 256)

def ofLittleEndian : List UInt8 → Nat
  | [] => 0
  | byte :: rest => byte.toNat + 256 * ofLittleEndian rest

theorem length_littleEndian (width n : Nat) : (littleEndian width n).length = width := by
  induction width generalizing n with
  | zero => rfl
  | succ width ih => simp [littleEndian, ih]

/-- Reading a number back gives its low bytes. -/
theorem ofLittleEndian_littleEndian (width n : Nat) :
    ofLittleEndian (littleEndian width n) = n % Nat.pow 256 width := by
  induction width generalizing n with
  | zero => exact (Nat.mod_one n).symm
  | succ width ih =>
    have low : (UInt8.ofNat (n % 256)).toNat = n % 256 := by
      simp [UInt8.toNat_ofNat']
    have step : Nat.pow 256 (width + 1) = 256 * Nat.pow 256 width := Nat.mul_comm _ _
    rw [littleEndian, ofLittleEndian, ih, low, step, Nat.mod_mul]

/-- The bytes of a row, padding included. -/
def stride (width : Nat) : Nat := (3 * width + 3) / 4 * 4

def pixelBytes (c : Colour) : List UInt8 := [c.blue, c.green, c.red]

def rowBytes (row : List Colour) : List UInt8 :=
  row.flatMap pixelBytes ++ List.replicate (stride row.length - 3 * row.length) 0

/-- Where the pixels begin: behind a file header of 14 bytes and an image header of 40. -/
def headerSize : Nat := 54

/-- Pixels for each metre. -/
def resolution : Nat := 3780

def header (width height : Nat) : List UInt8 :=
  let dataSize := stride width * height
  [0x42, 0x4D] ++ littleEndian 4 (headerSize + dataSize) ++ littleEndian 4 0 ++
    littleEndian 4 headerSize ++
  littleEndian 4 40 ++ littleEndian 4 width ++ littleEndian 4 height ++ littleEndian 2 1 ++
    littleEndian 2 24 ++ littleEndian 4 0 ++ littleEndian 4 dataSize ++
    littleEndian 4 resolution ++ littleEndian 4 resolution ++ littleEndian 4 0 ++
    littleEndian 4 0

/-- The bytes of the file of an image. -/
def fileBytes (image : Image) : List UInt8 :=
  header image.width image.height ++ image.rows.reverse.flatMap rowBytes

/-- Why bytes are no bitmap file: they are of another kind, or they end within the headers
or within the pixels, where so many bytes make no whole row. -/
inductive FileFault where
  | unidentified
  | shortHeader
  | shortPixels (unread : Nat)
deriving DecidableEq, Repr

/-- A number of so many bytes at an offset. -/
def numberAt (bytes : Array UInt8) (offset width : Nat) : Nat :=
  ofLittleEndian (bytes.extract offset (offset + width)).toList

def pixelAt (bytes : Array UInt8) (offset : Nat) : Colour :=
  let byte (n : Nat) : UInt8 := (bytes[offset + n]?).getD 0
  ⟨byte 2, byte 1, byte 0⟩

/-- The bytes left over when rows of a width are read from so many; the padding of a row
counts as read only where all of it is there. -/
def unreadBytes (width available : Nat) : Nat :=
  let rest := available % stride width
  if rest < 3 * width then rest else rest - 3 * width

/-- The image in the bytes of a file. What follows the pixels does not matter, nor does
padding behind the last row. -/
def readFile (bytes : Array UInt8) : Except FileFault Image :=
  if bytes.size < 18 ∨ bytes.extract 0 2 ≠ #[0x42, 0x4D] then .error .unidentified
  else if bytes.size < headerSize then .error .shortHeader
  else
    let start := numberAt bytes 10 4
    let width := numberAt bytes 18 4
    let height := numberAt bytes 22 4
    if bytes.size < start + stride width * (height - 1) + 3 * width then
      .error (.shortPixels (unreadBytes width (bytes.size - start)))
    else .ok
      { width, height
        pixel := fun x y => pixelAt bytes (start + (height - 1 - y) * stride width + 3 * x) }

/-- Why a bitmap file holds no program. -/
inductive ReadError where
  | source (e : SourceError)
  | file (fault : FileFault)
deriving DecidableEq, Repr

/-- The wording of a file that ends too soon. -/
def FileFault.message : FileFault → Text
  | unidentified => "cannot identify image file".toList
  | shortHeader => "Truncated File Read".toList
  | shortPixels unread =>
    "image file is truncated (".toList ++ Text.ofNat unread ++ " bytes not processed)".toList

/-- The tokens drawn in a bitmap file. The stream names the file in messages. -/
def readTokens (stream : Text) (bytes : Array UInt8) (side : Int := usualSide) :
    Except ReadError (List Token) :=
  match readFile bytes with
  | .error .unidentified => .error (.source ⟨.unidentifiedImage stream, none⟩)
  | .error fault => .error (.file fault)
  | .ok image => (decode image side).mapError .source

/-- The bytes of the bitmap file of a list of instructions. -/
def write (instructions : Array Instruction) (side : Nat := usualSide) :
    Except SourceError (List UInt8) :=
  (encode instructions side).map fileBytes

end TapeLang.Bitmap
