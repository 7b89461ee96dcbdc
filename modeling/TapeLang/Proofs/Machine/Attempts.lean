import TapeLang.Proofs.Machine.Handlers
import TapeLang.Proofs.Machine.Invariant

/-! What an execution attempts. Each instruction that it comes to is carried out, and a machine is
left that rules and handlers see, or it is refused, and the execution ends. A handler that raises
before an instruction keeps it from being attempted; one that raises behind it does not undo it. -/
namespace TapeLang

inductive Attempt where
  | completed (instruction : Instruction) (left : Machine)
  | refused (instruction : Instruction) (fault : Fault)

def Attempt.isCompleted : Attempt → Bool
  | completed .. => true
  | refused .. => false

/-- What a refused instruction may have used up of a machine. -/
def Machine.Spent (m u : Machine) : Prop :=
  ∃ input definitions reads, u = { m with input, definitions, counters := { m.counters with reads } }

/-- What an instruction may have done to a machine by the time it is carried out. -/
def Machine.Worked (m u : Machine) : Prop :=
  ∃ w definitions compiled frameCount, u = { m.setWorld w with definitions, compiled, frameCount }

/-- An action that is refused has worked neither on the tape nor on the output. -/
theorem World.act_refused {refuses : Array UInt8 → UInt8 → Option Text} {w u : World}
    {action : Action} {fault : Fault} (refused : w.act refuses action = .error fault u) :
    u = { w with input := u.input, counters := { w.counters with reads := u.counters.reads } } := by
  unfold act at refused
  cases action with
  | increment | decrement | left | right =>
    obtain rfl := takeTape_eq_error refused
    rfl
  | output =>
    dsimp only at refused
    cases answer : refuses w.output w.tape.get with
    | none => rw [answer] at refused; cases refused
    | some message =>
      rw [answer] at refused
      cases refused
      rfl
  | input =>
    dsimp only at refused
    cases given : w.input with
    | nil =>
      rw [given] at refused
      cases refused
      rfl
    | cons value input =>
      rw [given] at refused
      dsimp only at refused
      by_cases negative : value < 0
      · rw [if_pos negative] at refused
        cases refused
        rfl
      · rw [if_neg negative] at refused
        obtain rfl := takeTape_eq_error refused
        rfl

namespace Interpreter

theorem Stepped.worked {i : Interpreter} {m u : Machine} {cursor : Nat}
    {instruction : Instruction} {effect : Effect}
    (stepped : i.Stepped m cursor instruction effect u) : m.Worked u := by
  cases stepped with
  | @act _ w => exact ⟨w, m.definitions, m.compiled, m.frameCount, rfl⟩
  | jump | back => exact ⟨m.world.read, m.definitions, m.compiled, m.frameCount, rfl⟩
  | call _ _ ran =>
    obtain ⟨_, _, rfl⟩ := (retabled_bodyOf _ _ m).of_ok ran
    exact ⟨m.world, _, _, _, rfl⟩

theorem Refused.spent {i : Interpreter} {m u : Machine} {instruction : Instruction}
    {fault : Fault} (refused : i.Refused m instruction fault u) : m.Spent u := by
  cases refused with
  | act _ acted => exact ⟨_, m.definitions, _, congrArg m.setWorld (World.act_refused acted)⟩
  | depth => exact ⟨_, _, _, rfl⟩
  | body _ _ ran =>
    rcases bodyOf_fails ran with ⟨-, rfl, -⟩ | ⟨_, left, -, rfl, -⟩ <;> exact ⟨_, _, _, rfl⟩

theorem Stepped.log {i : Interpreter} {m u : Machine} {cursor : Nat} {instruction : Instruction}
    {effect : Effect} (stepped : i.Stepped m cursor instruction effect u) : u.log = m.log := by
  obtain ⟨_, _, _, _, rfl⟩ := stepped.worked
  rfl

theorem Refused.log {i : Interpreter} {m u : Machine} {instruction : Instruction} {fault : Fault}
    (refused : i.Refused m instruction fault u) : u.log = m.log := by
  obtain ⟨_, _, _, rfl⟩ := refused.spent
  rfl

/-- The attempt of an instruction, behind the handlers of the event before it. -/
def attempt (i : Interpreter) (frame : Frame) (rest : List Frame) (instruction : Instruction)
    (m : Machine) : Option Attempt :=
  match (i.notify (.beforeInstruction instruction)).run m with
  | .error _ _ => none
  | .ok _ u =>
    match (located instruction (i.step frame.cursor instruction)).run u with
    | .error fault _ => some (.refused instruction fault)
    | .ok effect v => some (.completed instruction (i.complete frame rest instruction effect v))

/-- What the turn of a frame attempts: nothing if it returns from the frame. -/
def turnAttempt (i : Interpreter) (frame : Frame) (rest : List Frame) (m : Machine) :
    Option Attempt :=
  frame.code[frame.cursor]?.bind fun instruction => i.attempt frame rest instruction m

/-- What an execution attempts, in turn. -/
def attempts (i : Interpreter) : Nat → Machine → List Attempt
  | 0, _ => []
  | fuel + 1, m =>
    match m.stack with
    | [] => []
    | frame :: rest =>
      (i.turnAttempt frame rest m).toList ++
        match (i.turn frame rest).run m with
        | .error _ _ => []
        | .ok _ u => i.attempts fuel u

/-- What can become of an instruction. -/
inductive Advanced (i : Interpreter) (m : Machine) (frame : Frame) (rest : List Frame)
    (instruction : Instruction) : Option Attempt → EStateM.Result Fault Machine Unit → Prop where
  | kept {fault u} :
      (i.notify (.beforeInstruction instruction)).run m = .error fault u →
      Advanced i m frame rest instruction none (.error fault u)
  | refused {u fault v} :
      (i.notify (.beforeInstruction instruction)).run m = .ok () u →
      i.Refused u instruction fault v →
      Advanced i m frame rest instruction
        (some (.refused instruction (fault.placed instruction.op instruction.location v.world)))
        (.error (fault.placed instruction.op instruction.location v.world) v)
  | completed {u effect v} :
      (i.notify (.beforeInstruction instruction)).run m = .ok () u →
      i.Stepped u frame.cursor instruction effect v →
      Advanced i m frame rest instruction
        (some (.completed instruction (i.complete frame rest instruction effect v)))
        ((do i.applyRules instruction; i.notify (.afterInstruction instruction) : Exec Unit).run
          (i.complete frame rest instruction effect v))

theorem advanced (i : Interpreter) (m : Machine) (frame : Frame) (rest : List Frame)
    (instruction : Instruction) :
    i.Advanced m frame rest instruction (i.attempt frame rest instruction m)
      ((i.advance frame rest instruction).run m) := by
  unfold advance attempt
  cases told : (i.notify (.beforeInstruction instruction)).run m with
  | error fault u =>
    rw [run_bind_of_error told]
    exact .kept told
  | ok _ u =>
    rw [run_bind_of_ok told]
    dsimp only
    cases stepped : (i.step frame.cursor instruction).run u with
    | error fault v =>
      have failed : (located instruction (i.step frame.cursor instruction)).run u =
          .error (fault.placed instruction.op instruction.location v.world) v := by
        rw [run_located, stepped]
      rw [run_bind_of_error failed, failed]
      exact .refused told (refused_of_step stepped)
    | ok effect v =>
      have done : (located instruction (i.step frame.cursor instruction)).run u = .ok effect v := by
        rw [run_located, stepped]
      rw [run_bind_of_ok done, done, EStateM.run_bind, EStateM.run_modify]
      exact .completed told (stepped_of_step stepped)

/-- What a turn attempts without handlers, and what becomes of the machine. -/
inductive Turned (i : Interpreter) (frame : Frame) (rest : List Frame) (m : Machine) :
    Option Attempt → EStateM.Result Fault Machine Unit → Prop where
  | returned :
      frame.code[frame.cursor]? = none → Turned i frame rest m none (.ok () { m with stack := rest })
  | completed {instruction effect u} :
      frame.code[frame.cursor]? = some instruction →
      i.Stepped m frame.cursor instruction effect u →
      Turned i frame rest m
        (some (.completed instruction (i.complete frame rest instruction effect u)))
        (.ok () (i.complete frame rest instruction effect u))
  | refused {instruction fault u} :
      frame.code[frame.cursor]? = some instruction →
      i.Refused m instruction fault u →
      Turned i frame rest m
        (some (.refused instruction (fault.placed instruction.op instruction.location u.world)))
        (.error (fault.placed instruction.op instruction.location u.world) u)

theorem IsBare.turned {i : Interpreter} (bare : i.IsBare) (frame : Frame) (rest : List Frame)
    (m : Machine) :
    i.Turned frame rest m (i.turnAttempt frame rest m) ((i.turn frame rest).run m) := by
  unfold turnAttempt turn
  cases found : frame.code[frame.cursor]? with
  | none => exact .returned found
  | some instruction =>
    dsimp only [Option.bind]
    rw [bare.run_advance, attempt, bare.run_notify]
    dsimp only
    rw [run_located]
    cases stepped : (i.step frame.cursor instruction).run m with
    | error fault u => exact .refused found (refused_of_step stepped)
    | ok effect u => exact .completed found (stepped_of_step stepped)

/-- A text is executed from where evaluating it without fuel ends. -/
theorem evaluate_from (i : Interpreter) (fuel : Nat) (file text : Text) (m : Machine) :
    (i.evaluate fuel file text).run m =
      match (i.evaluate 0 file text).run m with
      | .error fault u => .error fault u
      | .ok (p, _) start =>
        match (i.execute fuel).run start with
        | .ok ending u => .ok (p, ending) u
        | .error fault u => .error fault u := by
  rw [evaluate_eq, evaluate_eq]
  cases i.readText file text m.definitions with
  | error e => rfl
  | ok p =>
    dsimp only
    cases (i.notify (.programParsed p.size)).run (m.holding p) <;> rfl

/-- The end of a run: an execution, and what is told to the handlers behind it. -/
def conclude (i : Interpreter) (fuel : Nat) : Exec Ending := do
  let ending ← tryCatch (i.execute fuel) i.reportFailure
  if ending = .finished then i.notify (.programEnd 0)
  return ending

/-- An execution is all that the end of a run does to a machine, besides what its handlers do. -/
theorem leads_conclude {i : Interpreter} {R : Machine → Machine → Prop} [Std.Refl R]
    [IsTrans Machine R] (notified : ∀ notice m, Leads R (i.notify notice) m) (fuel : Nat)
    (m : Machine) :
    R (endState ((i.execute fuel).run m)) (endState ((i.conclude fuel).run m)) := by
  have told (ending : Ending) (u : Machine) : Leads R (do
      if ending = .finished then i.notify (.programEnd 0)
      return ending : Exec Ending) u :=
    .ite (.bind (notified _ u) fun _ _ _ => .pure _ _) (.pure _ _)
  unfold conclude
  rw [EStateM.run_bind, run_tryCatch]
  cases (i.execute fuel).run m with
  | ok ending u => exact told ending u
  | error fault u =>
    have reported : Leads R (do
        let ending ← i.reportFailure fault
        if ending = .finished then i.notify (.programEnd 0)
        return ending : Exec Ending) u :=
      .bind (leads_reportFailure notified fault u) fun ending v _ => told ending v
    unfold Leads at reported
    rw [EStateM.run_bind] at reported
    exact reported

/-- A run reads its program from a fresh start, tells the handlers that it starts, and executes
it. -/
theorem run_eq (i : Interpreter) (fuel : Nat) (m : Machine) :
    (i.run fuel).run m =
      match i.parse.run (i.reset m) with
      | .error fault u => .error fault u
      | .ok p u =>
        match (i.notify (.programStart p.size)).run u with
        | .error fault v => .error fault v
        | .ok _ v => (i.conclude fuel).run (v.opened p) := by
  rw [run, EStateM.run_bind, EStateM.run_modify]
  dsimp only
  cases parsed : i.parse.run (i.reset m) with
  | error fault u => rw [run_bind_of_error parsed]
  | ok p u =>
    rw [run_bind_of_ok parsed]
    dsimp only
    cases told : (i.notify (.programStart p.size)).run u with
    | error fault v => rw [run_bind_of_error told]
    | ok _ v =>
      have empty : v = { v with stack := [] } := by
        have first := ((learns_parse (i.reset m)).of_ok parsed).stack
        have second := ((learns_notify _ u).of_ok told).stack
        rw [← show v.stack = [] from second.trans first]
      have opened := i.run_executeProgram fuel p v
      rw [← empty] at opened
      rw [run_bind_of_ok told, EStateM.run_bind, run_tryCatch, opened]
      dsimp only
      rw [conclude, EStateM.run_bind, run_tryCatch]

/-- A run is one from where a run without fuel ends. -/
theorem run_from (i : Interpreter) (fuel : Nat) (m : Machine) :
    (i.run fuel).run m =
      match (i.run 0).run m with
      | .error fault u => .error fault u
      | .ok _ start => (i.conclude fuel).run start := by
  rw [run_eq, run_eq]
  cases i.parse.run (i.reset m) with
  | error fault u => rfl
  | ok p u =>
    dsimp only
    cases (i.notify (.programStart p.size)).run u <;> rfl

/-- The machine on which a request begins to execute its program: where it stops without fuel. -/
def beginning? (i : Interpreter) (m : Machine) : Request → Option Machine
  | .evaluate _ file text =>
    match (i.evaluate 0 file text).run m with
    | .ok _ start => some start
    | .error _ _ => none
  | .run _ =>
    match (i.run 0).run m with
    | .ok _ start => some start
    | .error _ _ => none
  | _ => none

/-- Without handlers every program that is read begins to be executed. -/
theorem IsBare.beginning?_eq {i : Interpreter} (bare : i.IsBare) (m : Machine)
    (request : Request) : i.beginning? m request = i.entered? m request := by
  cases request with
  | evaluate fuel file text =>
    rw [beginning?, entered?, bare.evaluate_eq]
    cases i.readText file text m.definitions <;> rfl
  | run fuel =>
    rw [beginning?, entered?]
    cases read : i.readSetup with
    | error e =>
      obtain ⟨left, unread, -⟩ := run_unread read 0 m
      rw [unread]
      rfl
    | ok p =>
      obtain ⟨tokens, lexed, parsed⟩ := exists_parse_of_readSetup read
      rw [bare.run_run lexed parsed, started_eq_entering]
      rfl
  | parse | check | reset | bodyOf | shortForm | toC => rfl

end Interpreter
end TapeLang
