import Mathlib.Data.List.Intervals
import TapeLang.Proofs.Effect
import TapeLang.Proofs.Text
import TapeLang.Tape

/-! A tape under any requests, whether it refuses them or not. The pointer stays on the tape, the
highest index that it has reached is kept exactly, and beyond that index the cells are zero; so the
dump of a tape, which stops there, tells all of its cells. -/
namespace TapeLang

/-- What a tape is asked for. -/
inductive TapeRequest where
  | move (offset : Int)
  | set (value : Int)
  | add (delta : Int)
  | get
  | snapshot (radius : Int)
  | dump
deriving DecidableEq, Repr

inductive TapeReply where
  | done
  | cell (value : UInt8)
  | cells (shown : List (Nat × UInt8))
  | text (t : Text)
deriving DecidableEq, Repr

namespace Tape

/-- A change of a tape, which stays as it is if the change is refused. -/
def change (t : Tape) : Except TapeFault Tape → EStateM.Result TapeFault Tape TapeReply
  | .ok u => .ok .done u
  | .error fault => .error fault t

def answer (t : Tape) : TapeRequest → EStateM.Result TapeFault Tape TapeReply
  | .move offset => t.change (t.move offset)
  | .set value => t.change (t.set value)
  | .add delta => t.change (t.add delta)
  | .get => .ok (.cell t.get) t
  | .snapshot radius => .ok (.cells (t.snapshot radius)) t
  | .dump => .ok (.text t.dump) t

/-- The tape that requests leave, made in turn. -/
def after (t : Tape) (requests : List TapeRequest) : Tape :=
  requests.foldl (fun t request => endState (t.answer request)) t

/-- Where the pointer stood before each request, and where it stands behind the last. -/
def places (t : Tape) : List TapeRequest → List Nat
  | [] => [t.pointer]
  | request :: rest => t.pointer :: (endState (t.answer request)).places rest

/-- A tape with its pointer moved, and nothing else. -/
structure Moved (t : Tape) (offset : Int) (u : Tape) : Prop where
  pointer : (u.pointer : Int) = t.pointer + offset
  cells : ∀ index, u.cell index = t.cell index

/-- A tape with a number in the cell under its pointer, and nothing else changed. -/
structure Stored (t : Tape) (value : Int) (u : Tape) : Prop where
  pointer : u.pointer = t.pointer
  here : ((u.cell t.pointer).toNat : Int) = value
  others : ∀ index ≠ t.pointer, u.cell index = t.cell index

variable {t u : Tape} {request : TapeRequest}

/-- A request leaves a tape as it is, or it moves the pointer or writes a cell. -/
theorem answer_cases (t : Tape) (request : TapeRequest) :
    endState (t.answer request) = t ∨
      (∃ offset, t.move offset = .ok (endState (t.answer request))) ∨
      ∃ value, t.set value = .ok (endState (t.answer request)) := by
  have changed (worked : Except TapeFault Tape) :
      endState (t.change worked) = t ∨ worked = .ok (endState (t.change worked)) := by
    cases worked with
    | ok v => exact .inr rfl
    | error fault => exact .inl rfl
  cases request with
  | move offset => exact (changed _).imp_right fun moved => .inl ⟨offset, moved⟩
  | set value => exact (changed _).imp_right fun written => .inr ⟨value, written⟩
  | add delta => exact (changed _).imp_right fun written => .inr ⟨_, written⟩
  | get | snapshot | dump => exact .inl rfl

theorem size_answer (t : Tape) (request : TapeRequest) :
    (endState (t.answer request)).size = t.size := by
  rcases t.answer_cases request with same | ⟨offset, moved⟩ | ⟨value, written⟩
  · rw [same]
  · exact size_move moved
  · exact size_set written

/-- The peak rises as far as the pointer does. -/
theorem peak_answer (t : Tape) (request : TapeRequest) :
    (endState (t.answer request)).peak = max t.peak (endState (t.answer request)).pointer := by
  have reached := t.pointer_le_peak
  rcases t.answer_cases request with same | ⟨offset, moved⟩ | ⟨value, written⟩
  · rw [same]
    omega
  · exact peak_move moved
  · rw [peak_set written, pointer_set written]
    omega

theorem size_after (t : Tape) (requests : List TapeRequest) : (t.after requests).size = t.size := by
  induction requests generalizing t with
  | nil => rfl
  | cons request rest ih => exact (ih _).trans (t.size_answer request)

/-- The peak is the highest of the places of the pointer, and of the peak before. -/
theorem peak_after (t : Tape) (requests : List TapeRequest) :
    t.peak ≤ (t.after requests).peak ∧
      (∀ place ∈ t.places requests, place ≤ (t.after requests).peak) ∧
      ((t.after requests).peak = t.peak ∨ (t.after requests).peak ∈ t.places requests) := by
  have reached := t.pointer_le_peak
  induction requests generalizing t with
  | nil => exact ⟨Nat.le_refl _, by simpa [places, after] using reached, .inl rfl⟩
  | cons request rest ih =>
    let u := endState (t.answer request)
    obtain ⟨raised, bounded, found⟩ := ih u u.pointer_le_peak
    have peak : u.peak = max t.peak u.pointer := t.peak_answer request
    have first : u.pointer ∈ u.places rest := by
      cases rest <;> exact List.mem_cons_self
    change t.peak ≤ (u.after rest).peak ∧
      (∀ place ∈ t.pointer :: u.places rest, place ≤ (u.after rest).peak) ∧
      ((u.after rest).peak = t.peak ∨ (u.after rest).peak ∈ t.pointer :: u.places rest)
    refine ⟨by omega, List.forall_mem_cons.mpr ⟨by omega, bounded⟩, ?_⟩
    rcases found with same | visited
    · rcases Nat.le_total u.pointer t.peak with below | above
      · exact .inl (by omega)
      · have here : (u.after rest).peak = u.pointer := by omega
        exact .inr (List.mem_cons_of_mem _ (here ▸ first))
    · exact .inr (List.mem_cons_of_mem _ visited)

/-- The pointer moves to a place on the tape, or not at all. -/
theorem move_cases (t : Tape) (offset : Int) :
    (∃ u, t.move offset = .ok u ∧ 0 ≤ t.pointer + offset ∧ t.pointer + offset < t.size ∧
      t.Moved offset u) ∨
    (t.move offset = .error (.pointerOutside (t.pointer + offset) t.size) ∧
      ¬ (0 ≤ t.pointer + offset ∧ t.pointer + offset < t.size)) := by
  by_cases inside : 0 ≤ t.pointer + offset ∧ t.pointer + offset < t.size
  · have moved : ∃ u, t.move offset = .ok u := ⟨_, dif_pos inside⟩
    obtain ⟨u, moved⟩ := moved
    exact .inl ⟨u, moved, inside.1, inside.2, pointer_move moved, cell_move moved⟩
  · exact .inr ⟨dif_neg inside, inside⟩

/-- A byte is stored in its cell without wrapping, and nothing else is. -/
theorem set_cases (t : Tape) (value : Int) :
    (∃ u, t.set value = .ok u ∧ 0 ≤ value ∧ value ≤ 255 ∧ t.Stored value u) ∨
    (t.set value = .error (.valueOutside value t.pointer) ∧ ¬ (0 ≤ value ∧ value ≤ 255)) := by
  by_cases byte : 0 ≤ value ∧ value ≤ 255
  · have written : ∃ u, t.set value = .ok u := ⟨_, if_pos byte⟩
    obtain ⟨u, written⟩ := written
    refine .inl ⟨u, written, byte.1, byte.2, pointer_set written, ?_, ?_⟩
    · rw [cell_set written, if_pos rfl, UInt8.toNat_ofNat']
      omega
    · intro index other
      rw [cell_set written, if_neg other]
  · exact .inr ⟨if_neg byte, byte⟩

/-- The cells around the pointer, up to both ends of the tape. -/
theorem snapshot_eq (t : Tape) (radius : Int) :
    t.snapshot radius =
      ((List.range t.size).filter fun index : Nat =>
        (((index : Int) - t.pointer).natAbs : Int) ≤ radius).map
        fun index => (index, t.cell index) := by
  let low := (t.pointer - radius).toNat
  let high := (min (t.size : Int) (t.pointer + radius + 1)).toNat
  have cut : List.range' low (high - low) =
      (List.range t.size).filter fun index : Nat =>
        (((index : Int) - t.pointer).natAbs : Int) ≤ radius := by
    have span : List.Ico low high = ((List.Ico 0 t.size).filter (· < high)).filter (low ≤ ·) := by
      rw [List.Ico.filter_lt, List.Ico.filter_le]
      congr 1
      all_goals omega
    change List.Ico low high = _
    rw [span, List.filter_filter, List.Ico.zero_bot]
    apply List.filter_congr
    intro index member
    have inside := List.mem_range.mp member
    rw [← Bool.decide_and, decide_eq_decide]
    omega
  rw [← cut]
  rfl

theorem not_mem_cellLine (t : Tape) (index : Nat) : '\n' ∉ t.cellLine index := by
  have digits (n : Nat) : '\n' ∉ Text.ofNat n := fun member =>
    absurd (Text.isDigit_of_mem_ofNat member) (by decide)
  simp [cellLine, digits]

/-- The dump has a line for each visited cell. -/
theorem pieces_dump (t : Tape) :
    Text.pieces '\n' t.dump = (List.range (t.peak + 1)).map t.cellLine := by
  have visited : t.visited.size = t.peak + 1 := by
    have := t.pointer_lt
    unfold peak
    omega
  rw [dump, visited, Text.pieces_join]
  · simp
  · intro line listed
    obtain ⟨index, -, rfl⟩ := List.mem_map.mp listed
    exact t.not_mem_cellLine index

theorem cell_of_cellLine {index : Nat} (same : t.cellLine index = u.cellLine index) :
    t.cell index = u.cell index :=
  UInt8.toNat_inj.mp (Text.ofNat_injective (List.append_cancel_left same))

/-- Tapes with the same dump have the same cells, and have been visited as far. -/
theorem dump_eq_iff :
    t.dump = u.dump ↔ t.peak = u.peak ∧ ∀ index, t.cell index = u.cell index := by
  constructor
  · intro same
    have lines := congrArg (Text.pieces '\n') same
    rw [pieces_dump, pieces_dump] at lines
    have length := congrArg List.length lines
    simp only [List.length_map, List.length_range, Nat.add_right_cancel_iff] at length
    refine ⟨length, fun index => ?_⟩
    rcases Nat.lt_or_ge t.peak index with beyond | visited
    · rw [t.cell_of_peak_lt beyond, u.cell_of_peak_lt (length ▸ beyond)]
    · rw [← length, List.map_inj_left] at lines
      exact cell_of_cellLine (lines index (List.mem_range.mpr (by omega)))
  · rintro ⟨peak, cells⟩
    have lines : Text.pieces '\n' t.dump = Text.pieces '\n' u.dump := by
      rw [pieces_dump, pieces_dump, peak]
      exact List.map_congr_left fun index _ => by rw [cellLine, cells, cellLine]
    rw [← Text.join_pieces '\n' t.dump, lines, Text.join_pieces]

/-- `Answered t request ended`: how a tape answers a request. What it refuses leaves it alone. -/
inductive Answered (t : Tape) :
    TapeRequest → EStateM.Result TapeFault Tape TapeReply → Prop where
  | moved {offset : Int} {u} : 0 ≤ t.pointer + offset → t.pointer + offset < t.size →
      t.Moved offset u → Answered t (.move offset) (.ok .done u)
  | outside {offset : Int} : ¬ (0 ≤ t.pointer + offset ∧ t.pointer + offset < t.size) →
      Answered t (.move offset) (.error (.pointerOutside (t.pointer + offset) t.size) t)
  | stored {value u} : 0 ≤ value → value ≤ 255 → t.Stored value u →
      Answered t (.set value) (.ok .done u)
  | noByte {value} : ¬ (0 ≤ value ∧ value ≤ 255) →
      Answered t (.set value) (.error (.valueOutside value t.pointer) t)
  | added {delta : Int} {u} : 0 ≤ t.get.toNat + delta → t.get.toNat + delta ≤ 255 →
      t.Stored (t.get.toNat + delta) u → Answered t (.add delta) (.ok .done u)
  | noSum {delta : Int} : ¬ (0 ≤ t.get.toNat + delta ∧ t.get.toNat + delta ≤ 255) →
      Answered t (.add delta) (.error (.valueOutside (t.get.toNat + delta) t.pointer) t)
  | read : Answered t .get (.ok (.cell (t.cell t.pointer)) t)
  | shown {radius} : Answered t (.snapshot radius)
      (.ok (.cells (((List.range t.size).filter fun index : Nat =>
        (((index : Int) - t.pointer).natAbs : Int) ≤ radius).map
          fun index => (index, t.cell index))) t)
  | dumped {text} : Text.pieces '\n' text = (List.range (t.peak + 1)).map t.cellLine →
      Answered t .dump (.ok (.text text) t)

theorem answered (t : Tape) (request : TapeRequest) : t.Answered request (t.answer request) := by
  cases request with
  | move offset =>
    rw [answer]
    rcases t.move_cases offset with ⟨u, moved, low, high, does⟩ | ⟨refused, outside⟩
    · rw [moved]
      exact .moved low high does
    · rw [refused]
      exact .outside outside
  | set value =>
    rw [answer]
    rcases t.set_cases value with ⟨u, written, low, high, does⟩ | ⟨refused, outside⟩
    · rw [written]
      exact .stored low high does
    · rw [refused]
      exact .noByte outside
  | add delta =>
    rw [answer, add]
    rcases t.set_cases (t.get.toNat + delta) with
      ⟨u, written, low, high, does⟩ | ⟨refused, outside⟩
    · rw [written]
      exact .added low high does
    · rw [refused]
      exact .noSum outside
  | get =>
    rw [answer, get_eq_cell]
    exact .read
  | snapshot radius =>
    rw [answer, snapshot_eq]
    exact .shown
  | dump => exact .dumped t.pieces_dump

/-- What holds of a tape whose pointer has been at some places: it stands no higher than the
highest of these, all behind that is zero, and every cell holds a byte. -/
structure Visited (places : List Nat) (t : Tape) : Prop where
  pointer_le : t.pointer ≤ t.peak
  peak_lt : t.peak < t.size
  peak_mem : t.peak ∈ places
  le_peak : ∀ place ∈ places, place ≤ t.peak
  zero : ∀ index, t.peak < index → t.cell index = 0
  byte : ∀ index, (t.cell index).toNat ≤ 255

/-- A new tape of any size can be made, and whatever is asked of it, refused or not, its size is
kept, its peak is the highest place that its pointer has been at, and all cells behind the peak are
zero. Every request is answered as it should be, and left undone if it is refused. The dump lists
the cells that are not zero, and no tape with other cells has the same dump. -/
theorem visited_after {size : Int} (positive : 1 ≤ size) (requests : List TapeRequest) :
    ∃ blank, ofSize? size = some blank ∧
      let t := blank.after requests
      (t.size : Int) = size ∧ t.Visited (blank.places requests) ∧
      (∀ request, t.Answered request (t.answer request)) ∧
      (∀ index, t.cell index ≠ 0 → t.cellLine index ∈ Text.pieces '\n' t.dump) ∧
      ∀ u : Tape, u.dump = t.dump ↔ u.peak = t.peak ∧ ∀ index, u.cell index = t.cell index := by
  obtain ⟨blank, made⟩ : ∃ blank, ofSize? size = some blank := ⟨_, dif_pos positive⟩
  refine ⟨blank, made, ?_⟩
  intro t
  obtain ⟨visited, pointer⟩ := ofSize?_eq_some made
  have start : blank.peak = 0 := by rw [peak, visited]; rfl
  have first : 0 ∈ blank.places requests := by
    cases requests <;> exact pointer ▸ List.mem_cons_self
  obtain ⟨-, bounded, reached⟩ := blank.peak_after requests
  have size : (t.size : Int) = size := by rw [size_after, size_ofSize? made]
  refine ⟨size, ⟨t.pointer_le_peak, t.peak_lt_size, ?_, bounded, ?_, ?_⟩, t.answered, ?_,
    fun u => dump_eq_iff⟩
  · rcases reached with same | member
    · exact same.trans start ▸ first
    · exact member
  · exact fun index beyond => t.cell_of_peak_lt beyond
  · exact fun index => Nat.le_of_lt_succ (t.cell index).toNat_lt
  · intro index written
    have below : index ≤ t.peak :=
      Nat.le_of_not_lt fun beyond => written (t.cell_of_peak_lt beyond)
    rw [pieces_dump]
    exact List.mem_map_of_mem (List.mem_range.mpr (Nat.lt_succ_of_le below))

/-- Requests of a tape, of which one of three cells refuses two: a number that is no byte, and a
move off its end. -/
def errands : List TapeRequest :=
  [.add 7, .move 2, .set 200, .add 56, .move 1, .move (-1), .snapshot 1]

/-- They leave the pointer behind the peak, and two cells that are not zero. -/
theorem visited_after_errands : (1 : Int) ≤ 3 ∧ ∃ blank, ofSize? 3 = some blank ∧
    let t := blank.after errands
    t.pointer = 1 ∧ t.peak = 2 ∧ t.dump = "C0: 7\nC1: 0\nC2: 200".toList ∧
    blank.places errands = [0, 0, 2, 2, 2, 2, 1, 1] ∧ t.Visited (blank.places errands) ∧
    (∀ request, t.Answered request (t.answer request)) ∧
    ∀ u : Tape, u.dump = t.dump ↔ u.peak = t.peak ∧ ∀ index, u.cell index = t.cell index := by
  obtain ⟨blank, made, -, visited, answered, -, dumps⟩ :=
    @visited_after 3 (by decide) errands
  have evaluated : (ofSize? 3).map (fun blank =>
      ((blank.after errands).pointer, (blank.after errands).peak, (blank.after errands).dump,
        blank.places errands)) =
      some (1, 2, "C0: 7\nC1: 0\nC2: 200".toList, [0, 0, 2, 2, 2, 2, 1, 1]) := by
    decide +kernel
  rw [made] at evaluated
  simp only [Option.map_some, Option.some.injEq, Prod.mk.injEq] at evaluated
  obtain ⟨pointer, peak, dump, places⟩ := evaluated
  exact ⟨by decide, blank, made, pointer, peak, dump, places, visited, answered, dumps⟩

end Tape
end TapeLang
