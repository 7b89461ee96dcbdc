import TapeLang.Text.Basic

/-! The tape: cells of one byte, a pointer, and the visited cells from the first one up to
the highest that the pointer has reached. Cells beyond those are zero. -/
namespace TapeLang

structure Tape where
  size : Nat
  visited : Array UInt8
  pointer : Nat
  pointer_lt : pointer < visited.size
  visited_le : visited.size ≤ size
deriving DecidableEq, Repr

/-- Why the tape refuses an operation. -/
inductive TapeFault where
  | pointerOutside (target : Int) (size : Nat)
  | valueOutside (value : Int) (cell : Nat)
deriving DecidableEq, Repr

namespace Tape

/-- A tape of zeros. Its size must be positive. -/
def ofSize? (size : Int) : Option Tape :=
  if h : 0 < size then
    some { size := size.toNat, visited := #[0], pointer := 0
           pointer_lt := by simp, visited_le := by simp; omega }
  else none

/-- All cells of a new tape are zero, and the pointer is at the first one. -/
theorem ofSize?_eq_some {size : Int} {t : Tape} (made : ofSize? size = some t) :
    t.visited = #[0] ∧ t.pointer = 0 := by
  unfold ofSize? at made
  split at made <;> cases made
  exact ⟨rfl, rfl⟩

theorem size_ofSize? {size : Int} {t : Tape} (made : ofSize? size = some t) :
    (t.size : Int) = size := by
  unfold ofSize? at made
  split at made
  · cases made
    simp only
    omega
  · cases made

/-- The highest index that the pointer has reached. -/
def peak (t : Tape) : Nat := t.visited.size - 1

def cell (t : Tape) (index : Nat) : UInt8 := (t.visited[index]?).getD 0

/-- The cell under the pointer. -/
def get (t : Tape) : UInt8 :=
  have := t.pointer_lt
  t.visited[t.pointer]

/-- The visited cells, with zeros up to the given count of cells. -/
def extend (visited : Array UInt8) (count : Nat) : Array UInt8 :=
  visited ++ Array.replicate (count - visited.size) 0

theorem size_extend (visited : Array UInt8) (count : Nat) :
    (extend visited count).size = max visited.size count := by
  simp [extend]; omega

def move (t : Tape) (offset : Int) : Except TapeFault Tape :=
  let target : Int := t.pointer + offset
  if h : 0 ≤ target ∧ target < t.size then
    .ok { size := t.size, visited := extend t.visited (target.toNat + 1), pointer := target.toNat
          pointer_lt := by rw [size_extend]; omega
          visited_le := by rw [size_extend]; have := t.visited_le; omega }
  else .error (.pointerOutside target t.size)

def set (t : Tape) (value : Int) : Except TapeFault Tape :=
  if 0 ≤ value ∧ value ≤ 255 then
    .ok { t with
      visited := t.visited.set t.pointer (UInt8.ofNat value.toNat) t.pointer_lt
      pointer_lt := by simpa using t.pointer_lt
      visited_le := by simpa using t.visited_le }
  else .error (.valueOutside value t.pointer)

def add (t : Tape) (delta : Int) : Except TapeFault Tape := t.set (t.get.toNat + delta)

/-- The cells around the pointer that a snapshot shows unless told otherwise. -/
def usualRadius : Int := 4

/-- The cells within a radius of the pointer that exist, by index. -/
def snapshot (t : Tape) (radius : Int := usualRadius) : List (Nat × UInt8) :=
  let low := (t.pointer - radius).toNat
  let high := (min (t.size : Int) (t.pointer + radius + 1)).toNat
  (List.range' low (high - low)).map fun index => (index, t.cell index)

/-- A cell with its value. -/
def cellLine (t : Tape) (index : Nat) : Text :=
  'C' :: Text.ofNat index ++ ": ".toList ++ Text.ofNat (t.cell index).toNat

/-- One visited cell on each line. -/
def dump (t : Tape) : Text :=
  Text.join ['\n'] ((List.range t.visited.size).map t.cellLine)

theorem pointer_le_peak (t : Tape) : t.pointer ≤ t.peak := by
  have := t.pointer_lt
  unfold peak
  omega

theorem peak_lt_size (t : Tape) : t.peak < t.size := by
  have := t.pointer_lt
  have := t.visited_le
  unfold peak
  omega

theorem get_eq_cell (t : Tape) : t.get = t.cell t.pointer := by
  simp [get, cell, t.pointer_lt]

/-- Cells that the pointer has never reached are zero. -/
theorem cell_of_peak_lt (t : Tape) {index : Nat} (beyond : t.peak < index) :
    t.cell index = 0 := by
  have := t.pointer_lt
  unfold peak at beyond
  simp [cell, Array.getElem?_eq_none (show t.visited.size ≤ index by omega)]

theorem getD_extend (visited : Array UInt8) (count index : Nat) :
    ((extend visited count)[index]?).getD 0 = (visited[index]?).getD 0 := by
  rcases Nat.lt_or_ge index visited.size with inside | outside
  · simp [extend, Array.getElem?_append, inside]
  · simp only [extend, Array.getElem?_append, Nat.not_lt.mpr outside, if_false,
      Array.getElem?_replicate, Array.getElem?_eq_none outside]
    split <;> rfl

theorem pointer_move {t u : Tape} {offset : Int} (moved : t.move offset = .ok u) :
    (u.pointer : Int) = t.pointer + offset := by
  unfold move at moved
  dsimp only at moved
  split at moved
  · cases moved
    simp only
    omega
  · cases moved

theorem cell_move {t u : Tape} {offset : Int} (moved : t.move offset = .ok u) (index : Nat) :
    u.cell index = t.cell index := by
  unfold move at moved
  dsimp only at moved
  split at moved
  · cases moved
    exact getD_extend ..
  · cases moved

theorem peak_move {t u : Tape} {offset : Int} (moved : t.move offset = .ok u) :
    u.peak = max t.peak u.pointer := by
  have := t.pointer_lt
  unfold move at moved
  dsimp only at moved
  split at moved
  · cases moved
    simp only [peak, size_extend]
    omega
  · cases moved

theorem size_move {t u : Tape} {offset : Int} (moved : t.move offset = .ok u) :
    u.size = t.size := by
  unfold move at moved
  dsimp only at moved
  split at moved <;> cases moved
  rfl

theorem size_set {t u : Tape} {value : Int} (written : t.set value = .ok u) :
    u.size = t.size := by
  unfold set at written
  split at written <;> cases written
  rfl

/-- Only bytes are written. -/
theorem bounds_set {t u : Tape} {value : Int} (written : t.set value = .ok u) :
    0 ≤ value ∧ value ≤ 255 := by
  unfold set at written
  split at written
  · assumption
  · cases written

theorem pointer_set {t u : Tape} {value : Int} (written : t.set value = .ok u) :
    u.pointer = t.pointer := by
  unfold set at written
  split at written <;> cases written
  rfl

theorem peak_set {t u : Tape} {value : Int} (written : t.set value = .ok u) :
    u.peak = t.peak := by
  unfold set at written
  split at written <;> cases written
  simp [peak]

theorem cell_set {t u : Tape} {value : Int} (written : t.set value = .ok u) (index : Nat) :
    u.cell index = if index = t.pointer then UInt8.ofNat value.toNat else t.cell index := by
  unfold set at written
  split at written <;> cases written
  simp only [cell, Array.getElem?_set]
  by_cases same : t.pointer = index
  · simp [same]
  · simp [same, Ne.symm same]

end Tape
end TapeLang
