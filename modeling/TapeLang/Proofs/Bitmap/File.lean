import Mathlib.Algebra.Group.Nat.Defs
import TapeLang.Bitmap.File
import TapeLang.Proofs.Bitmap.Blocks

/-! Bitmap files. The header of a file has the sizes of its image, and every point of the image has
its three bytes at a place of its own, which depends on the padding of the rows and on their order.
What is read from a file with that layout is the image, whatever its width. -/
namespace TapeLang.Bitmap

theorem ofLittleEndian_lt (bytes : List UInt8) :
    ofLittleEndian bytes < 256 ^ bytes.length := by
  induction bytes with
  | nil => exact Nat.one_pos
  | cons byte rest ih =>
    have low : byte.toNat < 256 := byte.toNat_lt
    have high := Nat.mul_le_mul_left 256 (Nat.succ_le_of_lt ih)
    rw [ofLittleEndian, List.length_cons, Nat.pow_succ, Nat.mul_comm _ 256]
    omega

/-- A number that fits is read back. -/
theorem ofLittleEndian_of_lt {width n : Nat} (fits : n < 256 ^ width) :
    ofLittleEndian (littleEndian width n) = n :=
  (ofLittleEndian_littleEndian width n).trans (Nat.mod_eq_of_lt fits)

theorem le_stride (width : Nat) : 3 * width ≤ stride width := by
  unfold stride
  omega

section

variable {α β : Type} {f : α → List β} {items : List α} {n : Nat}

/-- Pieces of one length are found at its multiples. -/
theorem drop_flatMap (each : ∀ x ∈ items, (f x).length = n) (k : Nat) :
    (items.flatMap f).drop (k * n) = (items.drop k).flatMap f := by
  induction k generalizing items with
  | zero => simp
  | succ k ih =>
    cases items with
    | nil => simp
    | cons x rest =>
      obtain ⟨here, others⟩ := List.forall_mem_cons.mp each
      rw [List.flatMap_cons, List.drop_succ_cons, ← ih others, Nat.succ_mul, Nat.add_comm,
        ← here, ← List.drop_drop, List.drop_left]

theorem length_flatMap_of_each (each : ∀ x ∈ items, (f x).length = n) :
    (items.flatMap f).length = items.length * n := by
  induction items with
  | nil => simp
  | cons x rest ih =>
    obtain ⟨here, others⟩ := List.forall_mem_cons.mp each
    rw [List.flatMap_cons, List.length_append, here, ih others, List.length_cons, Nat.succ_mul,
      Nat.add_comm]

end

/-- Where the bytes of a point are: behind those of the rows below it, and of the points to the left
of it. -/
def pointOffset (image : Image) (x y : Nat) : Nat :=
  headerSize + (image.height - 1 - y) * stride image.width + 3 * x

/-- The layout of the file of an image. -/
structure Lays (image : Image) (bytes : List UInt8) : Prop where
  length : bytes.length = headerSize + image.height * stride image.width
  front : bytes.take headerSize = header image.width image.height
  point : ∀ x y, x < image.width → y < image.height →
    (bytes.drop (pointOffset image x y)).take 3 = pixelBytes (image.pixel x y)
  padding : ∀ y, y < image.height →
    (bytes.drop (pointOffset image image.width y)).take (stride image.width - 3 * image.width) =
      List.replicate (stride image.width - 3 * image.width) 0

theorem length_header (width height : Nat) : (header width height).length = headerSize := by
  simp [header, length_littleEndian, headerSize]

theorem length_pixelBytes (row : List Colour) :
    (row.flatMap pixelBytes).length = 3 * row.length := by
  rw [length_flatMap_of_each (n := 3) fun _ _ => rfl, Nat.mul_comm]

theorem length_rowBytes (row : List Colour) : (rowBytes row).length = stride row.length := by
  have := le_stride row.length
  rw [rowBytes, List.length_append, length_pixelBytes, List.length_replicate]
  omega

variable {image : Image} {bytes : List UInt8}

/-- The row at some height. -/
def rowAt (image : Image) (y : Nat) : List Colour :=
  (List.range image.width).map fun x => image.pixel x y

theorem length_rowAt (image : Image) (y : Nat) : (rowAt image y).length = image.width := by
  simp [rowAt]

/-- The rows stand in the file from the lowest one up. -/
theorem fileBytes_eq (image : Image) :
    fileBytes image = header image.width image.height ++
      (List.range image.height).reverse.flatMap fun y => rowBytes (rowAt image y) := by
  rw [fileBytes, Image.rows, ← List.map_reverse, List.flatMap_map]
  rfl

/-- What stands in the file from a row on. -/
theorem drop_fileBytes {y : Nat} (inside : y < image.height) (n : Nat) :
    ∃ rest, (fileBytes image).drop
        (headerSize + (image.height - 1 - y) * stride image.width + n) =
      (rowBytes (rowAt image y) ++ rest).drop n := by
  have each : ∀ y ∈ (List.range image.height).reverse,
      (rowBytes (rowAt image y)).length = stride image.width := by
    intro y _
    rw [length_rowBytes, length_rowAt]
  have row : (List.range image.height).reverse[image.height - 1 - y]? = some y := by
    rw [List.getElem?_reverse (by simp; omega), List.getElem?_range (by simp; omega)]
    simp
    omega
  obtain ⟨within, here⟩ := List.getElem?_eq_some_iff.mp row
  refine ⟨((List.range image.height).reverse.drop (image.height - 1 - y + 1)).flatMap
    fun y => rowBytes (rowAt image y), ?_⟩
  rw [← List.drop_drop, ← List.drop_drop, fileBytes_eq,
    ← length_header image.width image.height, List.drop_left, drop_flatMap each,
    List.drop_eq_getElem_cons within, here, List.flatMap_cons]

theorem lays_fileBytes (image : Image) : Lays image (fileBytes image) := by
  constructor
  · rw [fileBytes_eq, List.length_append, length_header,
      length_flatMap_of_each (n := stride image.width)]
    · simp
    · intro y _
      rw [length_rowBytes, length_rowAt]
  · rw [fileBytes_eq, ← length_header image.width image.height, List.take_left]
  · intro x y right down
    obtain ⟨rest, same⟩ := drop_fileBytes down (3 * x)
    have found : (rowAt image y)[x]? = some (image.pixel x y) := by simp [rowAt, right]
    obtain ⟨within, here⟩ := List.getElem?_eq_some_iff.mp found
    have each : ∀ c ∈ rowAt image y, (pixelBytes c).length = 3 := fun c _ => rfl
    rw [pointOffset, same, rowBytes, List.append_assoc, List.drop_append_of_le_length, Nat.mul_comm,
      drop_flatMap each, List.drop_eq_getElem_cons within, here, List.flatMap_cons]
    · rfl
    · rw [length_pixelBytes]
      omega
  · intro y down
    obtain ⟨rest, same⟩ := drop_fileBytes down (3 * image.width)
    have length := length_pixelBytes (rowAt image y)
    rw [length_rowAt] at length
    rw [pointOffset, same, rowBytes, length_rowAt, List.append_assoc, ← length, List.drop_left,
      List.take_append_of_le_length (by simp), List.take_of_length_le (by simp)]

theorem numberAt_eq (bytes : List UInt8) (offset width : Nat) :
    numberAt bytes.toArray offset width = ofLittleEndian ((bytes.drop offset).take width) := by
  rw [numberAt, Array.toList_extract, List.extract_eq_take_drop, Nat.add_sub_cancel_left]

theorem pixelAt_eq {offset : Nat} {c : Colour}
    (found : (bytes.drop offset).take 3 = pixelBytes c) : pixelAt bytes.toArray offset = c := by
  have byte {n : Nat} (inside : n < 3) : bytes[offset + n]? = (pixelBytes c)[n]? := by
    rw [← found, List.getElem?_take_of_lt inside, List.getElem?_drop]
  have first : bytes[offset]? = some c.blue := @byte 0 (by decide)
  simp [pixelAt, byte, first, pixelBytes]

/-- Where the header has the place of the points and the sizes of the image. -/
theorem header_fields (width height : Nat) (rest : List UInt8) :
    ((header width height ++ rest).drop 10).take 4 = littleEndian 4 headerSize ∧
    ((header width height ++ rest).drop 18).take 4 = littleEndian 4 width ∧
    ((header width height ++ rest).drop 22).take 4 = littleEndian 4 height := by
  simp [header, littleEndian]

/-- A file with the layout of an image is read as that image, if the header has room for its
sizes. -/
theorem Lays.readFile (lays : Lays image bytes) (some_row : 0 < image.height)
    (width : image.width < 256 ^ 4) (height : image.height < 256 ^ 4) :
    ∃ shown, Bitmap.readFile bytes.toArray = .ok shown ∧ image.Same shown := by
  obtain ⟨length, front, point, -⟩ := lays
  have split : bytes = header image.width image.height ++ bytes.drop headerSize := by
    rw [← front, List.take_append_drop]
  have field {offset count n : Nat} (fits : n < 256 ^ count)
      (stands : (bytes.drop offset).take count = littleEndian count n) :
      numberAt bytes.toArray offset count = n := by
    rw [numberAt_eq, stands, ofLittleEndian_of_lt fits]
  have fields := header_fields image.width image.height (bytes.drop headerSize)
  rw [← split] at fields
  have start : numberAt bytes.toArray 10 4 = headerSize := field (by decide) fields.1
  have across : numberAt bytes.toArray 18 4 = image.width := field width fields.2.1
  have down : numberAt bytes.toArray 22 4 = image.height := field height fields.2.2
  have mark : bytes.toArray.extract 0 2 = #[0x42, 0x4D] := by
    rw [split]
    simp [header]
  have rows : stride image.width * (image.height - 1) + stride image.width =
      image.height * stride image.width := by
    obtain ⟨n, same⟩ := Nat.exists_eq_add_of_lt some_row
    rw [same, Nat.mul_comm]
    simp [Nat.succ_mul]
  have inRow := le_stride image.width
  have size : bytes.toArray.size = headerSize + image.height * stride image.width := by
    rw [List.size_toArray, length]
  have enough : ¬ bytes.toArray.size < headerSize + stride image.width * (image.height - 1) +
      3 * image.width := by
    omega
  have headed : ¬ bytes.toArray.size < headerSize := by omega
  have identified : ¬ (bytes.toArray.size < 18 ∨ bytes.toArray.extract 0 2 ≠ #[0x42, 0x4D]) := by
    rintro (short | other)
    · rw [size, headerSize] at short
      omega
    · exact other mark
  refine ⟨⟨image.width, image.height,
    fun x y => pixelAt bytes.toArray (pointOffset image x y)⟩, ?_, rfl, rfl, ?_⟩
  · unfold Bitmap.readFile
    rw [if_neg identified, if_neg headed]
    simp only [start, across, down, if_neg enough]
    rfl
  · intro x y right below
    exact (pixelAt_eq (point x y right below)).symm

/-- No file shows an image that is too large for the header. -/
theorem size_lt_of_readFile {file : Array UInt8} {shown : Image}
    (read : readFile file = .ok shown) : shown.width < 256 ^ 4 ∧ shown.height < 256 ^ 4 := by
  have bound (offset : Nat) : numberAt file offset 4 < 256 ^ 4 := by
    apply Nat.lt_of_lt_of_le (ofLittleEndian_lt _)
    apply Nat.pow_le_pow_right (by decide)
    simp
  unfold readFile at read
  split at read
  · cases read
  · split at read
    · cases read
    · dsimp only at read
      split at read
      · cases read
      · cases read
        exact ⟨bound 18, bound 22⟩

/-- The file of a program without calls is laid out as its drawing, and what is read from its bytes
are the tokens of the drawing, so that they are the program again, places aside. The drawing may
have any width that the four bytes for it in the header hold; no file shows a wider one. -/
theorem readTokens_write (stream : Text) {instructions : Array Instruction}
    (flat : ∀ i ∈ instructions.toList, i.op.isCall = false) {side : Nat} (positive : 0 < side) :
    ∃ image bytes tokens, encode instructions side = .ok image ∧
      write instructions side = .ok bytes ∧ Lays image bytes ∧
      decode image side = .ok tokens ∧
      (image.width < 256 ^ 4 → readTokens stream bytes.toArray side = .ok tokens) ∧
      (∀ file shown, readFile file = .ok shown → shown.width < 256 ^ 4) ∧
      ∀ (source : Source) (text : List Token) (before after : Dictionary) (p : Program),
        (source.parse text).run before = .ok p after → p.instructions = instructions →
        ∀ (source' : Source) (dictionary : Dictionary), ∃ q,
          (source'.parse tokens).run dictionary = .ok q dictionary ∧
          q.instructions.map Instruction.unplaced = instructions.map Instruction.unplaced := by
  obtain ⟨cs, read, same⟩ := exists_commands flat
  have encoded : encode instructions side = .ok (draw cs side) := by
    rw [encode, read]
    rfl
  obtain ⟨tokens, decoded, spelled⟩ :=
    decode_draw positive (⟨rfl, rfl, fun _ _ _ _ => rfl⟩ : (draw cs side).Same (draw cs side))
  refine ⟨draw cs side, fileBytes (draw cs side), tokens, encoded, ?_, lays_fileBytes _, decoded,
    ?_, fun _ _ shown => (size_lt_of_readFile shown).1, ?_⟩
  · rw [write, encoded]
    rfl
  · intro fits
    have some_row : 0 < (draw cs side).height := Nat.mul_pos (squareSide_pos _) positive
    obtain ⟨shown, ran, alike⟩ := (lays_fileBytes (draw cs side)).readFile some_row fits fits
    rw [readTokens, ran]
    dsimp only
    rw [decode_of_same positive alike, decoded]
    rfl
  · rintro source text before after p parsed rfl source' dictionary
    have none : p.calls = [] := by
      refine List.filter_eq_nil_iff.mpr fun op member => ?_
      obtain ⟨i, inside, rfl⟩ := List.mem_map.mp member
      simp [flat i inside]
    refine exists_parse_of_spelling parsed none ?_ source' dictionary
    rw [spelled, same, List.map_map]
    rfl

/-- Three commands in blocks of one point: two rows of two points, with two bytes behind each. -/
theorem readTokens_write_loop : ∃ p image bytes tokens q,
    Program.ofText [] "[<]".toList 64 = .ok p ∧ encode p.instructions 1 = .ok image ∧
    image.width = 2 ∧ write p.instructions 1 = .ok bytes ∧
    bytes.drop headerSize = [0, 0, 0xFF, 0, 0, 0, 0, 0, 0, 0x7F, 0xFF, 0xD3, 0, 0x94, 0, 0] ∧
    decode image (1 : Nat) = .ok tokens ∧ readTokens [] bytes.toArray (1 : Nat) = .ok tokens ∧
    (Source.parse ⟨[], #[], 0⟩ tokens).run {} = .ok q {} ∧
    q.instructions.map Instruction.unplaced = p.instructions.map Instruction.unplaced := by
  have evaluated : ((Program.ofText [] "[<]".toList 64).toOption.map fun p =>
      ((p.instructions.toList.map (·.op.isCall),
        (encode p.instructions 1).toOption.map (·.width)),
        (write p.instructions 1).toOption.map (·.drop headerSize))) =
      some (([false, false, false], some 2),
        some [0, 0, 0xFF, 0, 0, 0, 0, 0, 0, 0x7F, 0xFF, 0xD3, 0, 0x94, 0, 0]) := by
    decide +kernel
  cases read : Program.ofText [] "[<]".toList 64 with
  | error e => rw [read] at evaluated; cases evaluated
  | ok p =>
    rw [read] at evaluated
    obtain ⟨shape, layout⟩ := Prod.mk.inj (Option.some.inj evaluated)
    obtain ⟨flat, width⟩ := Prod.mk.inj shape
    obtain ⟨_, _, parsed⟩ := Program.ofText_eq_ok_iff.mp read
    have commandsOnly : ∀ i ∈ p.instructions.toList, i.op.isCall = false := by
      intro i member
      have listed := List.mem_map_of_mem (f := fun i : Instruction => i.op.isCall) member
      rw [flat] at listed
      simpa using listed
    obtain ⟨image, bytes, tokens, encoded, written, -, decoded, stored, -, again⟩ :=
      readTokens_write [] commandsOnly (show 0 < 1 by decide)
    rw [encoded] at width
    rw [written] at layout
    have two : image.width = 2 := Option.some.inj width
    obtain ⟨q, parsedAgain, same⟩ := again _ _ _ _ p parsed rfl ⟨[], #[], 0⟩ {}
    exact ⟨p, image, bytes, tokens, q, rfl, encoded, two, written, Option.some.inj layout, decoded,
      stored (by rw [two]; decide), parsedAgain, same⟩

end TapeLang.Bitmap
