import TapeLang.Proofs.Machine.Closure

/-! What the counters tell of an execution. Each completed step of a machine without handlers
is a call or one access to the tape, a move of the pointer among them; and the only access that
completes no step is the reading of a byte that the sink refuses. -/
namespace TapeLang

/-- The accesses to the tape. -/
def Counters.accesses (c : Counters) : Nat := c.moves + c.reads + c.writes

/-- The accesses of a step that failed: one if the sink refused a byte. -/
def Fault.accesses : Fault → Nat
  | .source _ | .runtime _ => 0
  | .foreign _ => 1

theorem Fault.accesses_placed (fault : Fault) (op : Operation) (location : Option Location)
    (w : World) : (fault.placed op location w).accesses = fault.accesses := by
  cases fault <;> rfl

/-- The calls that an operation is: one or none. -/
def Operation.callCount : Operation → Nat
  | command _ => 0
  | call .. => 1

/-- The calls that the next instruction of a frame is. -/
def Frame.callCount (frame : Frame) : Nat :=
  match frame.code[frame.cursor]? with
  | none => 0
  | some instruction => instruction.op.callCount

/-- The calls among the completed steps of an execution. -/
def Interpreter.callSteps (i : Interpreter) : Nat → Machine → Nat
  | 0, _ => 0
  | fuel + 1, m =>
    match m.stack with
    | [] => 0
    | frame :: rest =>
      match (i.turn frame rest).run m with
      | .error _ _ => 0
      | .ok _ u => frame.callCount + i.callSteps fuel u

namespace World

/-- One access more and no step, or those of a failure. -/
def Accessed (w : World) : RunResult → Prop
  | .ok _ u => u.counters.steps = w.counters.steps ∧
      u.counters.accesses = w.counters.accesses + 1
  | .error fault u => u.counters.steps = w.counters.steps ∧
      u.counters.accesses = w.counters.accesses + fault.accesses

variable (w : World)

theorem accesses_read : w.read.counters.accesses = w.counters.accesses + 1 := by
  simp only [read, Counters.accesses]
  omega

theorem accessed_takeTape (count : Counters → Counters)
    (steps : (count w.counters).steps = w.counters.steps)
    (accesses : (count w.counters).accesses = w.counters.accesses + 1)
    (worked : Except TapeFault Tape) : w.Accessed (w.takeTape count worked) := by
  cases worked with
  | error fault => exact ⟨rfl, rfl⟩
  | ok tape => exact ⟨steps, accesses⟩

theorem accessed_act (refuses : Array UInt8 → UInt8 → Option Text) (action : Action) :
    w.Accessed (w.act refuses action) := by
  have moved (c : Counters) : { c with moves := c.moves + 1 }.accesses = c.accesses + 1 := by
    simp only [Counters.accesses]
    omega
  have written (c : Counters) : { c with writes := c.writes + 1 }.accesses = c.accesses + 1 := by
    simp only [Counters.accesses]
    omega
  unfold act
  cases action with
  | increment | decrement =>
    exact w.accessed_takeTape (fun c => { c with writes := c.writes + 1 }) rfl (written _) _
  | left | right =>
    exact w.accessed_takeTape (fun c => { c with moves := c.moves + 1 }) rfl (moved _) _
  | output =>
    dsimp only
    cases refuses w.output w.tape.get with
    | none => exact ⟨rfl, w.accesses_read⟩
    | some message => exact ⟨rfl, w.accesses_read⟩
  | input =>
    dsimp only
    cases w.input with
    | nil => exact ⟨rfl, rfl⟩
    | cons value input =>
      dsimp only
      by_cases negative : value < 0
      · rw [if_pos negative]
        exact ⟨rfl, rfl⟩
      · rw [if_neg negative]
        exact accessed_takeTape { w with input } (fun c => { c with writes := c.writes + 1 }) rfl
          (written _) _

end World

namespace Interpreter

variable {i : Interpreter} {m : Machine}

/-- Compiling a body leaves the world alone. -/
theorem world_bodyOf (target : Text) (args : List Text) :
    match (i.bodyOf target args).run m with
    | .ok _ u => u.world = m.world
    | .error fault u => u.world = m.world ∧ fault.accesses = 0 := by
  rw [bodyOf, EStateM.run_bind, EStateM.run_get]
  dsimp only
  cases m.compiled.find? ⟨target, args⟩ with
  | some p => rfl
  | none =>
    dsimp only
    cases (m.definitions.find? target).filter (·.kind = .functionForm) with
    | none => exact ⟨rfl, rfl⟩
    | some d =>
      dsimp only
      rw [EStateM.run_bind, run_declaring]
      cases (d.compile args i.setup.expansionLimit).run m.definitions with
      | error e left => exact ⟨rfl, rfl⟩
      | ok p left => rfl

/-- What an instruction counts before it counts as a step. -/
theorem counters_step (cursor : Nat) (instruction : Instruction) :
    match (i.step cursor instruction).run m with
    | .ok _ u => u.counters.steps = m.counters.steps ∧
        u.counters.accesses + instruction.op.callCount = m.counters.accesses + 1
    | .error fault u => u.counters.steps = m.counters.steps ∧
        u.counters.accesses = m.counters.accesses + fault.accesses := by
  cases op : instruction.op with
  | command command =>
    cases command with
    | act action =>
      simp only [step, op]
      have counted := m.world.accessed_act i.setup.refuses action
      rw [EStateM.run_bind, run_perform]
      cases acted : m.world.act i.setup.refuses action with
      | ok _ u =>
        rw [acted] at counted
        exact counted
      | error fault u =>
        rw [acted] at counted
        exact counted
    | jump =>
      simp only [step, op]
      exact ⟨rfl, m.world.accesses_read⟩
    | back =>
      simp only [step, op]
      exact ⟨rfl, m.world.accesses_read⟩
  | call target args =>
    simp only [step, op, EStateM.run_bind, EStateM.run_get]
    by_cases full : i.setup.callLimit ≤ (m.stack.length : Int)
    · rw [if_pos full]
      exact ⟨rfl, rfl⟩
    · rw [if_neg full]
      have kept := world_bodyOf (i := i) (m := m) target args
      cases ran : (i.bodyOf target args).run m with
      | error fault u =>
        rw [ran] at kept
        have counters : u.counters = m.counters := congrArg World.counters kept.1
        rw [run_bind_of_error ran]
        dsimp only
        rw [counters, kept.2]
        exact ⟨rfl, rfl⟩
      | ok p u =>
        rw [ran] at kept
        have counters : u.counters = m.counters := congrArg World.counters kept
        rw [run_bind_of_ok ran]
        exact ⟨congrArg (·.steps) counters, congrArg (·.accesses + 1) counters⟩

/-- What a turn counts. -/
theorem IsBare.counters_turn (bare : i.IsBare) (frame : Frame) (rest : List Frame) :
    match (i.turn frame rest).run m with
    | .ok _ u => u.counters.steps + m.counters.accesses =
        m.counters.steps + u.counters.accesses + frame.callCount
    | .error fault u => u.counters.steps + m.counters.accesses + fault.accesses =
        m.counters.steps + u.counters.accesses := by
  unfold turn Frame.callCount
  cases frame.code[frame.cursor]? with
  | none => rfl
  | some instruction =>
    dsimp only
    have counted := counters_step (i := i) (m := m) frame.cursor instruction
    rw [bare.run_advance]
    cases stepped : (i.step frame.cursor instruction).run m with
    | ok effect u =>
      rw [stepped] at counted
      obtain ⟨steps, accesses⟩ := counted
      have completed : (i.complete frame rest instruction effect u).counters =
          { u.counters with steps := u.counters.steps + 1 } := rfl
      have accessesKept : { u.counters with steps := u.counters.steps + 1 }.accesses =
          u.counters.accesses := rfl
      dsimp only
      rw [completed, accessesKept]
      dsimp only
      omega
    | error fault u =>
      rw [stepped] at counted
      obtain ⟨steps, accesses⟩ := counted
      dsimp only
      rw [fault.accesses_placed]
      omega

/-- The steps of an execution are its accesses and its calls, less an access that failed. -/
theorem IsBare.counters_execute (bare : i.IsBare) (fuel : Nat) (m : Machine) :
    match (i.execute fuel).run m with
    | .ok _ u => u.counters.steps + m.counters.accesses =
        m.counters.steps + u.counters.accesses + i.callSteps fuel m
    | .error fault u => u.counters.steps + m.counters.accesses + fault.accesses =
        m.counters.steps + u.counters.accesses + i.callSteps fuel m := by
  induction fuel generalizing m with
  | zero => rfl
  | succ fuel ih =>
    cases stack : m.stack with
    | nil =>
      rw [run_execute_empty stack, callSteps, stack]
      rfl
    | cons frame rest =>
      have counted := bare.counters_turn (m := m) frame rest
      rw [run_execute_succ stack, callSteps, stack]
      dsimp only
      cases turned : (i.turn frame rest).run m with
      | error fault u =>
        rw [turned] at counted
        rw [run_bind_of_error turned]
        exact counted
      | ok _ u =>
        rw [turned] at counted
        rw [run_bind_of_ok turned]
        have later := ih u
        cases executed : (i.execute fuel).run u with
        | ok ending v =>
          rw [executed] at later
          dsimp only at counted later ⊢
          omega
        | error fault v =>
          rw [executed] at later
          dsimp only at counted later ⊢
          omega

/-- A machine whose frames call nothing makes no call. -/
theorem Within.callSteps_eq_zero {dictionary : Dictionary} (bare : i.IsBare)
    (within : i.Within dictionary [] m) (fuel : Nat) : i.callSteps fuel m = 0 := by
  induction fuel generalizing m with
  | zero => rfl
  | succ fuel ih =>
    rw [callSteps]
    cases stack : m.stack with
    | nil => rfl
    | cons frame rest =>
      dsimp only
      cases turned : (i.turn frame rest).run m with
      | error fault u => rfl
      | ok _ u =>
        have closed : i.Closed dictionary [] := fun c member => by cases member
        have none : callsOf frame.code ⊆ [] := within.frames frame (stack ▸ List.mem_cons_self)
        have atNone : frame.callCount = 0 := by
          unfold Frame.callCount
          cases found : frame.code[frame.cursor]? with
          | none => rfl
          | some instruction =>
            dsimp only
            cases op : instruction.op with
            | command => rfl
            | call target args =>
              have called : ⟨target, args⟩ ∈ callsOf frame.code :=
                List.mem_filterMap.mpr ⟨.call target args,
                  List.mem_map.mpr ⟨instruction, (Array.mem_of_getElem? found).val, op⟩, rfl⟩
              cases none called
        dsimp only
        rw [atNone, ih (within.turn bare closed ⟨frame, rest, stack, turned⟩)]

end Interpreter

end TapeLang
