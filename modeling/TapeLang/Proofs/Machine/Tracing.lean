import TapeLang.Proofs.Machine.Accounts

/-! Traces. Since the last fresh start one line was written for each completed step, in order and
numbered without a gap, whatever handlers and rules did around the steps and however the requests
ended. Each line tells of the frame as it stood before the step, and of the tape right behind it.
So, where nothing but the program works on the tape, the lines replay it. -/
namespace TapeLang

/-- A completed step: the frame as it stood, its instruction, and the machine that is left. -/
structure Step where
  frame : Frame
  instruction : Instruction
  left : Machine

def Operation.command? : Operation → Option Command
  | command c => some c
  | call .. => none

/-- What a line of a trace shows to those who replay it. Calls are not told apart. -/
structure Glimpse where
  command : Option Command
  pointer : Nat
  cell : UInt8

namespace Step

/-- A line tells of a step. -/
structure ShownBy (step : Step) (line : StepRecord) : Prop where
  standing : step.frame.code[step.frame.cursor]? = some step.instruction
  frame : line.frame = step.frame.number
  cursor : line.cursor = step.frame.cursor
  label : line.label = step.instruction.op.label
  location : line.location = step.instruction.location
  pointer : line.pointer = step.left.tape.pointer
  cell : line.cell = step.left.tape.get

/-- What right behind a step can be seen of it. -/
def seen (step : Step) : Glimpse :=
  ⟨step.instruction.op.command?, step.left.tape.pointer, step.left.tape.get⟩

variable {steps : List Step} {lines : List StepRecord}

end Step

/-- A tape as it is sketched in a replay, without bounds. -/
structure Sketch where
  pointer : Int := 0
  cells : Int → Int := fun _ => 0

namespace Sketch

def write (s : Sketch) (value : Int) : Sketch :=
  { s with cells := fun index => if index = s.pointer then value else s.cells index }

/-- Does again what a line shows. An input takes the cell that is shown. -/
def replay (s : Sketch) (g : Glimpse) : Sketch :=
  match g.command with
  | some (.act .left) => { s with pointer := s.pointer - 1 }
  | some (.act .right) => { s with pointer := s.pointer + 1 }
  | some (.act .increment) => s.write (s.cells s.pointer + 1)
  | some (.act .decrement) => s.write (s.cells s.pointer - 1)
  | some (.act .input) => s.write g.cell.toNat
  | _ => s

/-- A sketch shows a tape. -/
structure Depicts (s : Sketch) (t : Tape) : Prop where
  pointer : s.pointer = t.pointer
  cells : ∀ index : Nat, s.cells index = (t.cell index).toNat

variable {s : Sketch} {t u : Tape}

theorem Depicts.get (depicts : s.Depicts t) : s.cells s.pointer = t.get.toNat := by
  rw [Tape.get_eq_cell, ← depicts.cells, depicts.pointer]

theorem Depicts.move (depicts : s.Depicts t) {offset : Int} (moved : t.move offset = .ok u) :
    Depicts { s with pointer := s.pointer + offset } u where
  pointer := by rw [Tape.pointer_move moved, ← depicts.pointer]
  cells index := by rw [Tape.cell_move moved, ← depicts.cells]

theorem Depicts.write (depicts : s.Depicts t) {value : Int} (written : t.set value = .ok u) :
    (s.write value).Depicts u where
  pointer := depicts.pointer.trans (congrArg _ (Tape.pointer_set written).symm)
  cells index := by
    obtain ⟨nonnegative, small⟩ := Tape.bounds_set written
    simp only [Sketch.write, depicts.pointer, Tape.cell_set written, Int.ofNat_inj, depicts.cells]
    split
    · simp
      omega
    · rfl

/-- An input takes the cell that is shown behind it. -/
theorem Depicts.write_shown (depicts : s.Depicts t) {value : Int}
    (written : t.set value = .ok u) : (s.write u.get.toNat).Depicts u := by
  have wrote := depicts.write written
  have same : value = u.get.toNat := by simpa [Sketch.write] using wrote.get
  rwa [← same]

/-- A replay does to a sketch what the action does to the tape. -/
theorem Depicts.act {w v : World} (depicts : s.Depicts w.tape)
    {refuses : Array UInt8 → UInt8 → Option Text} {action : Action}
    (acted : w.act refuses action = .ok () v) :
    (s.replay ⟨some (.act action), v.tape.pointer, v.tape.get⟩).Depicts v.tape := by
  unfold World.act at acted
  cases action with
  | increment | decrement =>
    obtain ⟨tape, written, rfl⟩ := World.takeTape_eq_ok acted
    have wrote := depicts.write written
    rwa [← depicts.get] at wrote
  | left | right =>
    obtain ⟨tape, moved, rfl⟩ := World.takeTape_eq_ok acted
    exact depicts.move moved
  | output =>
    dsimp only at acted
    cases answer : refuses w.output w.tape.get with
    | some message => rw [answer] at acted; cases acted
    | none =>
      rw [answer] at acted
      cases acted
      exact depicts
  | input =>
    dsimp only at acted
    cases given : w.input with
    | nil => rw [given] at acted; cases acted
    | cons value input =>
      rw [given] at acted
      dsimp only at acted
      by_cases negative : value < 0
      · rw [if_pos negative] at acted
        cases acted
      · rw [if_neg negative] at acted
        obtain ⟨tape, written, rfl⟩ := World.takeTape_eq_ok acted
        exact depicts.write_shown written

end Sketch

namespace Interpreter

open Sketch (Depicts)

variable {i : Interpreter} {m u : Machine}

/-- A replay does to a sketch what the step does to the tape. -/
theorem Stepped.depicts {s : Sketch} {cursor : Nat} {instruction : Instruction} {effect : Effect}
    (stepped : i.Stepped m cursor instruction effect u) (depicts : s.Depicts m.tape) :
    (s.replay ⟨instruction.op.command?, u.tape.pointer, u.tape.get⟩).Depicts u.tape := by
  cases stepped with
  | act op acted =>
    rw [op]
    exact depicts.act acted
  | jump op | back op =>
    rw [op]
    exact depicts
  | call op _ ran =>
    obtain ⟨_, _, rfl⟩ := (retabled_bodyOf _ _ m).of_ok ran
    rw [op]
    exact depicts

/-- `Traced steps m u`: for each of the steps a line was added to the trace. -/
structure Traced (steps : List Step) (m u : Machine) : Prop where
  counted : u.counters.steps = m.counters.steps + steps.length
  recorded : u.recorded = m.recorded + steps.length
  shown : ∃ lines, u.trace.toList = m.trace.toList ++ lines ∧
    lines.map (·.index) = List.range' m.recorded steps.length ∧
    List.Forall₂ Step.ShownBy steps lines

namespace Traced

variable {v : Machine} {first second : List Step}

/-- What is not counted or recorded is not looked at. -/
theorem of_same (steps : u.counters.steps = m.counters.steps) (recorded : u.recorded = m.recorded)
    (trace : u.trace = m.trace) : Traced [] m u :=
  ⟨steps, recorded, [], by simp [trace], rfl, .nil⟩

theorem append (one : Traced first m u) (two : Traced second u v) :
    Traced (first ++ second) m v := by
  obtain ⟨counted, recorded, lines, added, numbered, shown⟩ := one
  obtain ⟨counted', recorded', lines', added', numbered', shown'⟩ := two
  refine ⟨?_, ?_, lines ++ lines', ?_, ?_, List.rel_append shown shown'⟩
  · rw [counted', counted, List.length_append, Nat.add_assoc]
  · rw [recorded', recorded, List.length_append, Nat.add_assoc]
  · rw [added', added, List.append_assoc]
  · rw [List.map_append, numbered, numbered', recorded, List.length_append, List.range'_append_1]

end Traced

theorem Stepped.traced {cursor : Nat} {instruction : Instruction} {effect : Effect}
    (stepped : i.Stepped m cursor instruction effect u) : Traced [] m u := by
  have steps : u.counters.steps = m.counters.steps := by
    rw [stepped.counters]
    rfl
  obtain ⟨_, _, _, _, rfl⟩ := stepped.worked
  exact .of_same steps rfl rfl

end Interpreter
end TapeLang
