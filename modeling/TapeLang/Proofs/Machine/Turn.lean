import TapeLang.Machine.Run
import TapeLang.Proofs.Machine.Structured

/-! Turns of a machine without handlers and rules: one instruction, or the return from a frame
whose instructions are done. What a turn does to the world is what the statement of its
instruction does. -/
namespace TapeLang

namespace Machine

/-- The part of a machine that statements work on. -/
def world (m : Machine) : World := ⟨m.tape, m.input, m.output, m.counters⟩

def setWorld (m : Machine) (w : World) : Machine :=
  { m with tape := w.tape, input := w.input, output := w.output, counters := w.counters }

@[simp] theorem world_tape (m : Machine) : m.world.tape = m.tape := rfl

@[simp] theorem world_setWorld (m : Machine) (w : World) : (m.setWorld w).world = w := rfl

@[simp] theorem setWorld_world (m : Machine) : m.setWorld m.world = m := rfl

end Machine

namespace Interpreter

variable {i : Interpreter} {m : Machine}

/-- Nothing reacts to events, and no rule is applied. -/
structure IsBare (i : Interpreter) : Prop where
  events : ∀ e, i.setup.services.hooks.byEvent e = []
  rules : i.setup.services.hooks.rules = []

theorem IsBare.run_notify (bare : i.IsBare) (notice : Notice) (m : Machine) :
    (i.notify notice).run m = .ok () m := by
  unfold notify
  rw [EStateM.run_bind, EStateM.run_get]
  simp only [Hooks.handlers, bare.events, List.map_nil, callInTurn]
  rfl

theorem IsBare.run_applyRules (bare : i.IsBare) (instruction : Instruction) (m : Machine) :
    (i.applyRules instruction).run m = .ok () m := by
  unfold applyRules
  rw [EStateM.run_bind, EStateM.run_get]
  simp only [Hooks.applicable, bare.rules, List.filter_nil, List.map_nil, callInTurn]
  rfl

/-- Errors of the work are told where they arose. -/
theorem run_located {α : Type} (instruction : Instruction) (work : Exec α) (m : Machine) :
    (located instruction work).run m =
      match work.run m with
      | .ok a u => .ok a u
      | .error fault u =>
        .error (fault.placed instruction.op instruction.location u.world) u := by
  rw [located, run_tryCatch]
  cases work.run m with
  | ok a u => rfl
  | error fault u => cases fault <;> rfl

theorem IsBare.run_advance (bare : i.IsBare) (frame : Frame) (rest : List Frame)
    (instruction : Instruction) (m : Machine) :
    (i.advance frame rest instruction).run m =
      match (i.step frame.cursor instruction).run m with
      | .ok effect u => .ok () (i.complete frame rest instruction effect u)
      | .error fault u =>
        .error (fault.placed instruction.op instruction.location u.world) u := by
  unfold advance
  rw [run_bind_of_ok (bare.run_notify _ m)]
  have located := run_located instruction (i.step frame.cursor instruction) m
  cases stepped : (i.step frame.cursor instruction).run m with
  | error fault u =>
    rw [stepped] at located
    rw [run_bind_of_error located]
  | ok effect u =>
    rw [stepped] at located
    rw [run_bind_of_ok located, EStateM.run_bind, EStateM.run_modify]
    dsimp only
    rw [run_bind_of_ok (bare.run_applyRules _ _), bare.run_notify]

theorem run_onTape (work : Tape → Except TapeFault Tape) (m : Machine) :
    (onTape work).run m =
      match work m.tape with
      | .ok tape => .ok () { m with tape }
      | .error fault => .error (.ofTape fault) m := by
  unfold onTape
  rw [EStateM.run_bind, EStateM.run_get]
  dsimp only
  cases work m.tape <;> rfl

/-- Work on the tape that is counted. -/
theorem run_onTape_count (work : Tape → Except TapeFault Tape) (f : Counters → Counters)
    (m : Machine) :
    (onTape work >>= fun _ => count f).run m =
      match m.world.takeTape f (work m.tape) with
      | .ok () u => .ok () (m.setWorld u)
      | .error fault u => .error fault (m.setWorld u) := by
  rw [EStateM.run_bind, run_onTape]
  cases work m.tape <;> rfl

theorem run_perform (i : Interpreter) (action : Action) (m : Machine) :
    (i.perform action).run m =
      match m.world.act i.setup.refuses action with
      | .ok () u => .ok () (m.setWorld u)
      | .error fault u => .error fault (m.setWorld u) := by
  cases action with
  | increment => simp only [perform, World.act, countWrite, run_onTape_count, Machine.world_tape]
  | decrement => simp only [perform, World.act, countWrite, run_onTape_count, Machine.world_tape]
  | left => simp only [perform, World.act, countMove, run_onTape_count, Machine.world_tape]
  | right => simp only [perform, World.act, countMove, run_onTape_count, Machine.world_tape]
  | output =>
    rw [perform, countRead, count, EStateM.run_bind, EStateM.run_modify]
    dsimp only
    rw [EStateM.run_bind, EStateM.run_get]
    dsimp only
    rw [emit, EStateM.run_bind, EStateM.run_get]
    simp only [World.act, Machine.world]
    cases i.setup.refuses m.output m.tape.get <;> rfl
  | input =>
    rw [perform, nextInput, EStateM.run_bind, EStateM.run_bind, EStateM.run_get]
    simp only [World.act, Machine.world]
    cases given : m.input with
    | nil =>
      have same : m.setWorld ⟨m.tape, [], m.output, m.counters⟩ = m := by
        rw [← given]
        rfl
      dsimp only
      rw [same]
      rfl
    | cons value input =>
      dsimp only
      rw [EStateM.run_bind, EStateM.run_modify]
      dsimp only
      rw [EStateM.run_pure]
      dsimp only
      by_cases negative : value < 0
      · rw [if_pos negative, if_pos negative]
        rfl
      · rw [if_neg negative, if_neg negative]
        exact run_onTape_count _ _ { m with input }

theorem run_declaring {α : Type} (work : Declaring α) (m : Machine) :
    (declaring work).run m =
      match work.run m.definitions with
      | .ok a definitions => .ok a { m with definitions }
      | .error e definitions => .error (.source e) { m with definitions } := by
  unfold declaring
  rw [EStateM.run_bind, EStateM.run_get]
  dsimp only
  cases work.run m.definitions <;> rfl

/-- The program of a call of a function: the compiled one, or that which compiling gives. -/
theorem run_bodyOf {name : Text} {d : Definition} (found : m.definitions.find? name = some d)
    (form : d.kind = .functionForm) (args : List Text) :
    (i.bodyOf name args).run m =
      match m.compiled.find? ⟨name, args⟩ with
      | some p => .ok p m
      | none =>
        match m.definitions.compile i.setup.expansionLimit ⟨name, args⟩ with
        | .ok p left =>
          .ok p { m with definitions := left, compiled := m.compiled.insert ⟨name, args⟩ p }
        | .error e left => .error (.source e) { m with definitions := left } := by
  rw [bodyOf, EStateM.run_bind, EStateM.run_get]
  dsimp only
  cases m.compiled.find? ⟨name, args⟩ with
  | some p => rfl
  | none =>
    dsimp only
    have kept : (m.definitions.find? name).filter (·.kind = .functionForm) = some d := by
      rw [found, Option.filter_some, if_pos (by simpa using form)]
    rw [kept, Dictionary.compile, found]
    dsimp only
    rw [EStateM.run_bind, run_declaring]
    cases (d.compile args i.setup.expansionLimit).run m.definitions <;> rfl

/-- A body that is given was compiled before, or is compiled and kept. -/
theorem bodyOf_cases {target : Text} {args : List Text} {p : Program} {u : Machine}
    (ran : (i.bodyOf target args).run m = .ok p u) :
    (m.compiled.find? ⟨target, args⟩ = some p ∧ u = m) ∨
      m.compiled.find? ⟨target, args⟩ = none ∧
        ∃ left, m.definitions.compile i.setup.expansionLimit ⟨target, args⟩ = .ok p left ∧
          u = { m with definitions := left, compiled := m.compiled.insert ⟨target, args⟩ p } := by
  cases known : m.compiled.find? ⟨target, args⟩ with
  | some q =>
    rw [bodyOf, EStateM.run_bind, EStateM.run_get] at ran
    dsimp only at ran
    rw [known] at ran
    cases ran
    left
    exact ⟨rfl, rfl⟩
  | none =>
    right
    cases found : (m.definitions.find? target).filter (·.kind = .functionForm) with
    | none =>
      rw [bodyOf, EStateM.run_bind, EStateM.run_get] at ran
      dsimp only at ran
      rw [known] at ran
      dsimp only at ran
      rw [found] at ran
      cases ran
    | some d =>
      obtain ⟨named, form⟩ := Option.filter_eq_some_iff.mp found
      rw [run_bodyOf named (by simpa using form), known] at ran
      dsimp only at ran
      cases compiled : m.definitions.compile i.setup.expansionLimit ⟨target, args⟩ with
      | error e left => rw [compiled] at ran; cases ran
      | ok q left =>
        rw [compiled] at ran
        cases ran
        exact ⟨rfl, left, rfl, rfl⟩

/-- A body that is not given was not compiled before: there is no such function, or it does not
compile. -/
theorem bodyOf_fails {target : Text} {args : List Text} {fault : Fault} {u : Machine}
    (ran : (i.bodyOf target args).run m = .error fault u) :
    ((∀ d, m.definitions.find? target = some d → d.kind ≠ .functionForm) ∧ u = m ∧
        fault = .runtime { fault := .undefinedFunction target, rule := some "CALL".toList }) ∨
      ∃ e left, m.definitions.compile i.setup.expansionLimit ⟨target, args⟩ = .error e left ∧
        u = { m with definitions := left } ∧ fault = .source e := by
  cases known : m.compiled.find? ⟨target, args⟩ with
  | some q =>
    rw [bodyOf, EStateM.run_bind, EStateM.run_get] at ran
    dsimp only at ran
    rw [known] at ran
    cases ran
  | none =>
    cases found : (m.definitions.find? target).filter (·.kind = .functionForm) with
    | none =>
      left
      rw [bodyOf, EStateM.run_bind, EStateM.run_get] at ran
      dsimp only at ran
      rw [known] at ran
      dsimp only at ran
      rw [found] at ran
      cases ran
      refine ⟨?_, rfl, rfl⟩
      intro d named form
      simp [named, form] at found
    | some d =>
      right
      obtain ⟨named, form⟩ := Option.filter_eq_some_iff.mp found
      rw [run_bodyOf named (by simpa using form), known] at ran
      dsimp only at ran
      cases compiled : m.definitions.compile i.setup.expansionLimit ⟨target, args⟩ with
      | ok q left => rw [compiled] at ran; cases ran
      | error e left =>
        rw [compiled] at ran
        cases ran
        exact ⟨e, left, rfl, rfl, rfl⟩

/-- `Stepped i m cursor instruction effect u`: the instruction is carried out and leaves the
machine `u`. Commands work on the world; a call opens a frame on the body of its function. -/
inductive Stepped (i : Interpreter) (m : Machine) (cursor : Nat) (instruction : Instruction) :
    Effect → Machine → Prop where
  | act {action w} :
      instruction.op = .command (.act action) → m.world.act i.setup.refuses action = .ok () w →
      Stepped i m cursor instruction ⟨cursor + 1, none⟩ (m.setWorld w)
  | jump :
      instruction.op = .command .jump →
      Stepped i m cursor instruction
        ⟨if m.tape.get = 0 then instruction.partner.getD cursor + 1 else cursor + 1, none⟩
        (m.setWorld m.world.read)
  | back :
      instruction.op = .command .back →
      Stepped i m cursor instruction
        ⟨if m.tape.get = 0 then cursor + 1 else instruction.partner.getD cursor, none⟩
        (m.setWorld m.world.read)
  | call {target args p v} :
      instruction.op = .call target args → ¬ i.setup.callLimit ≤ m.stack.length →
      (i.bodyOf target args).run m = .ok p v →
      Stepped i m cursor instruction
        ⟨cursor + 1, some ⟨target, p.instructions, v.frameCount, instruction.location, 0, none⟩⟩
        { v with frameCount := v.frameCount + 1 }

/-- `Refused i m instruction fault u`: the instruction fails and leaves the machine `u`. -/
inductive Refused (i : Interpreter) (m : Machine) (instruction : Instruction) :
    Fault → Machine → Prop where
  | act {action fault w} :
      instruction.op = .command (.act action) →
      m.world.act i.setup.refuses action = .error fault w →
      Refused i m instruction fault (m.setWorld w)
  | depth {target args} :
      instruction.op = .call target args → i.setup.callLimit ≤ m.stack.length →
      Refused i m instruction (.runtime { fault := .callTooDeep target i.setup.callLimit }) m
  | body {target args fault u} :
      instruction.op = .call target args → ¬ i.setup.callLimit ≤ m.stack.length →
      (i.bodyOf target args).run m = .error fault u →
      Refused i m instruction fault u

/-- What an instruction does is what its step does. -/
theorem Stepped.run {cursor : Nat} {instruction : Instruction} {effect : Effect} {u : Machine}
    (stepped : i.Stepped m cursor instruction effect u) :
    (i.step cursor instruction).run m = .ok effect u := by
  cases stepped with
  | @act action w op acted =>
    have performed := run_perform i action m
    rw [acted] at performed
    simp only [step, op]
    exact run_bind_of_ok performed _
  | jump op =>
    simp only [step, op]
    rfl
  | back op =>
    simp only [step, op]
    rfl
  | call op room ran =>
    simp only [step, op, EStateM.run_bind, EStateM.run_get, if_neg room, EStateM.run_pure, ran]
    rfl

/-- What an instruction can do, whether it fails or not. -/
theorem step_cases (i : Interpreter) (m : Machine) (cursor : Nat) (instruction : Instruction) :
    (∃ effect u, (i.step cursor instruction).run m = .ok effect u ∧
      i.Stepped m cursor instruction effect u) ∨
    ∃ fault u, (i.step cursor instruction).run m = .error fault u ∧
      i.Refused m instruction fault u := by
  have goes {effect : Effect} {u : Machine} (stepped : i.Stepped m cursor instruction effect u) :
      ∃ effect u, (i.step cursor instruction).run m = .ok effect u ∧
        i.Stepped m cursor instruction effect u := ⟨_, _, stepped.run, stepped⟩
  cases op : instruction.op with
  | command command =>
    cases command with
    | act action =>
      cases acted : m.world.act i.setup.refuses action with
      | ok ended w => exact .inl (goes (.act op acted))
      | error fault w =>
        right
        have performed := run_perform i action m
        rw [acted] at performed
        refine ⟨_, _, ?_, .act op acted⟩
        simp only [step, op]
        exact run_bind_of_error performed _
    | jump => exact .inl (goes (.jump op))
    | back => exact .inl (goes (.back op))
  | call target args =>
    by_cases full : i.setup.callLimit ≤ m.stack.length
    · right
      refine ⟨_, _, ?_, .depth op full⟩
      simp only [step, op, EStateM.run_bind, EStateM.run_get, if_pos full]
      rfl
    · cases ran : (i.bodyOf target args).run m with
      | ok p v => exact .inl (goes (.call op full ran))
      | error fault u =>
        right
        refine ⟨_, _, ?_, .body op full ran⟩
        simp only [step, op, EStateM.run_bind, EStateM.run_get, if_neg full, ran]

theorem stepped_of_step {cursor : Nat} {instruction : Instruction} {effect : Effect}
    {u : Machine} (stepped : (i.step cursor instruction).run m = .ok effect u) :
    i.Stepped m cursor instruction effect u := by
  rcases i.step_cases m cursor instruction with ⟨_, _, ran, does⟩ | ⟨_, _, ran, -⟩
  · cases stepped.symm.trans ran
    exact does
  · cases stepped.symm.trans ran

theorem refused_of_step {cursor : Nat} {instruction : Instruction} {fault : Fault} {u : Machine}
    (failed : (i.step cursor instruction).run m = .error fault u) :
    i.Refused m instruction fault u := by
  rcases i.step_cases m cursor instruction with ⟨_, _, ran, -⟩ | ⟨_, _, ran, refused⟩
  · cases failed.symm.trans ran
  · cases failed.symm.trans ran
    exact refused

/-- One instruction of the innermost frame, or the return from it. -/
def turn (i : Interpreter) (frame : Frame) (rest : List Frame) : Exec Unit :=
  match frame.code[frame.cursor]? with
  | none => modify fun m => { m with stack := rest }
  | some instruction => i.advance frame rest instruction

/-- A machine takes a turn. -/
def Turn (i : Interpreter) (m m' : Machine) : Prop :=
  ∃ frame rest, m.stack = frame :: rest ∧ (i.turn frame rest).run m = .ok () m'

/-- A machine fails in its turn. -/
def Fails (i : Interpreter) (m : Machine) (fault : Fault) (m' : Machine) : Prop :=
  ∃ frame rest, m.stack = frame :: rest ∧ (i.turn frame rest).run m = .error fault m'

end Interpreter

namespace Machine

/-- A machine stands at a cursor of a list of instructions, above other frames. -/
structure At (m : Machine) (code : Array Instruction) (cursor : Nat) (rest : List Frame)
    (w : World) : Prop where
  stack : ∃ frame, m.stack = frame :: rest ∧ frame.code = code ∧ frame.cursor = cursor
  world : m.world = w

/-- Machines with the same definitions and compiled calls. -/
def SameTables (m m' : Machine) : Prop :=
  m'.definitions = m.definitions ∧ m'.compiled = m.compiled

end Machine

namespace Interpreter

open Machine (At SameTables)

variable {i : Interpreter} {m : Machine} {code : Array Instruction} {cursor : Nat}
variable {rest : List Frame} {w : World} {instruction : Instruction}

theorem IsBare.turn_of_step (bare : i.IsBare) {frame : Frame}
    (stack : m.stack = frame :: rest) (found : frame.code[frame.cursor]? = some instruction)
    {effect : Effect} {u : Machine}
    (stepped : (i.step frame.cursor instruction).run m = .ok effect u) :
    i.Turn m (i.complete frame rest instruction effect u) := by
  refine ⟨frame, rest, stack, ?_⟩
  rw [turn, found]
  dsimp only
  rw [bare.run_advance, stepped]

theorem IsBare.fails_of_step (bare : i.IsBare) {frame : Frame}
    (stack : m.stack = frame :: rest) (found : frame.code[frame.cursor]? = some instruction)
    {fault : Fault} {u : Machine}
    (stepped : (i.step frame.cursor instruction).run m = .error fault u) :
    i.Fails m (fault.placed instruction.op instruction.location u.world) u := by
  refine ⟨frame, rest, stack, ?_⟩
  rw [turn, found]
  dsimp only
  rw [bare.run_advance, stepped]

/-- A turn returns from a frame that is done, or carries out the next instruction. -/
theorem IsBare.turn_cases (bare : i.IsBare) {m' : Machine} (turn : i.Turn m m') :
    ∃ frame rest, m.stack = frame :: rest ∧
      ((frame.code[frame.cursor]? = none ∧ m' = { m with stack := rest }) ∨
      ∃ instruction effect u, frame.code[frame.cursor]? = some instruction ∧
        i.Stepped m frame.cursor instruction effect u ∧
        m' = i.complete frame rest instruction effect u) := by
  obtain ⟨frame, rest, stack, turned⟩ := turn
  refine ⟨frame, rest, stack, ?_⟩
  unfold Interpreter.turn at turned
  cases found : frame.code[frame.cursor]? with
  | none =>
    rw [found] at turned
    cases turned
    exact .inl ⟨rfl, rfl⟩
  | some instruction =>
    rw [found] at turned
    dsimp only at turned
    rw [bare.run_advance] at turned
    cases stepped : (i.step frame.cursor instruction).run m with
    | error fault u => rw [stepped] at turned; cases turned
    | ok effect u =>
      rw [stepped] at turned
      cases turned
      exact .inr ⟨instruction, effect, u, rfl, stepped_of_step stepped, rfl⟩

/-- A turn fails where its instruction does, and tells the place of it. -/
theorem IsBare.fails_cases (bare : i.IsBare) {fault : Fault} {u : Machine}
    (fails : i.Fails m fault u) :
    ∃ frame rest instruction raised, m.stack = frame :: rest ∧
      frame.code[frame.cursor]? = some instruction ∧ i.Refused m instruction raised u ∧
      fault = raised.placed instruction.op instruction.location u.world := by
  obtain ⟨frame, rest, stack, failed⟩ := fails
  unfold turn at failed
  cases found : frame.code[frame.cursor]? with
  | none => rw [found] at failed; cases failed
  | some instruction =>
    rw [found] at failed
    dsimp only at failed
    rw [bare.run_advance] at failed
    cases stepped : (i.step frame.cursor instruction).run m with
    | ok effect v => rw [stepped] at failed; cases failed
    | error raised v =>
      rw [stepped] at failed
      cases failed
      exact ⟨frame, rest, instruction, raised, stack, found, refused_of_step stepped, rfl⟩

theorem at_complete {frame : Frame} (same : frame.code = code) (instruction : Instruction)
    (cursor : Nat) (u : Machine) :
    At (i.complete frame rest instruction ⟨cursor, none⟩ u) code cursor rest u.world.step :=
  ⟨⟨_, rfl, same, rfl⟩, rfl⟩

/-- An action is carried out as its statement says. -/
theorem IsBare.turn_act (bare : i.IsBare) (here : At m code cursor rest w)
    (found : code[cursor]? = some instruction) {action : Action}
    (op : instruction.op = .command (.act action)) {u : World}
    (acted : w.act i.setup.refuses action = .ok () u) :
    ∃ m', i.Turn m m' ∧ At m' code (cursor + 1) rest u.step ∧ SameTables m m' := by
  obtain ⟨⟨frame, stack, rfl, rfl⟩, rfl⟩ := here
  have stepped : (i.step frame.cursor instruction).run m =
      .ok ⟨frame.cursor + 1, none⟩ (m.setWorld u) := by
    simp only [step, op]
    rw [run_bind_of_ok (by rw [run_perform, acted])]
    rfl
  exact ⟨_, bare.turn_of_step stack found stepped, at_complete rfl _ _ _, rfl, rfl⟩

theorem IsBare.fails_act (bare : i.IsBare) (here : At m code cursor rest w)
    (found : code[cursor]? = some instruction) {action : Action}
    (op : instruction.op = .command (.act action)) {fault : Fault} {u : World}
    (acted : w.act i.setup.refuses action = .error fault u) :
    ∃ m', i.Fails m (fault.placed (.command (.act action)) instruction.location u) m' ∧
      m'.world = u := by
  obtain ⟨⟨frame, stack, rfl, rfl⟩, rfl⟩ := here
  have stepped : (i.step frame.cursor instruction).run m = .error fault (m.setWorld u) := by
    simp only [step, op]
    rw [run_bind_of_error (by rw [run_perform, acted])]
  have failed := bare.fails_of_step stack found stepped
  rw [op] at failed
  exact ⟨_, failed, rfl⟩

/-- An opening bracket goes behind its partner where the cell is zero. -/
theorem IsBare.turn_jump (bare : i.IsBare) (here : At m code cursor rest w)
    (found : code[cursor]? = some instruction) (op : instruction.op = .command .jump)
    {partner : Nat} (bound : instruction.partner = some partner) :
    ∃ m', i.Turn m m' ∧ SameTables m m' ∧
      At m' code (if w.tape.get = 0 then partner + 1 else cursor + 1) rest w.bracket := by
  obtain ⟨⟨frame, stack, rfl, rfl⟩, rfl⟩ := here
  have stepped : (i.step frame.cursor instruction).run m =
      .ok ⟨if m.tape.get = 0 then partner + 1 else frame.cursor + 1, none⟩
        (m.setWorld m.world.read) := by
    simp only [step, op, bound]
    rfl
  exact ⟨_, bare.turn_of_step stack found stepped, ⟨rfl, rfl⟩, at_complete rfl _ _ _⟩

/-- A closing bracket goes back to its partner where the cell is not zero. -/
theorem IsBare.turn_back (bare : i.IsBare) (here : At m code cursor rest w)
    (found : code[cursor]? = some instruction) (op : instruction.op = .command .back)
    {partner : Nat} (bound : instruction.partner = some partner) :
    ∃ m', i.Turn m m' ∧ SameTables m m' ∧
      At m' code (if w.tape.get = 0 then cursor + 1 else partner) rest w.bracket := by
  obtain ⟨⟨frame, stack, rfl, rfl⟩, rfl⟩ := here
  have stepped : (i.step frame.cursor instruction).run m =
      .ok ⟨if m.tape.get = 0 then frame.cursor + 1 else partner, none⟩
        (m.setWorld m.world.read) := by
    simp only [step, op, bound]
    rfl
  exact ⟨_, bare.turn_of_step stack found stepped, ⟨rfl, rfl⟩, at_complete rfl _ _ _⟩

/-- A call at the limit of frames is refused. -/
theorem IsBare.fails_call (bare : i.IsBare) (here : At m code cursor rest w)
    (found : code[cursor]? = some instruction) {target : Text} {args : List Text}
    (op : instruction.op = .call target args)
    (full : i.setup.callLimit ≤ (rest.length + 1 : Nat)) :
    ∃ m', i.Fails m ((Fault.runtime { fault := .callTooDeep target i.setup.callLimit }).placed
      (.call target args) instruction.location w) m' ∧ m'.world = w := by
  obtain ⟨⟨frame, stack, rfl, rfl⟩, rfl⟩ := here
  have stepped : (i.step frame.cursor instruction).run m =
      .error (.runtime { fault := .callTooDeep target i.setup.callLimit }) m := by
    simp only [step, op, EStateM.run_bind, EStateM.run_get, stack, List.length_cons, if_pos full]
    rfl
  have failed := bare.fails_of_step stack found stepped
  rw [op] at failed
  exact ⟨_, failed, rfl⟩

theorem IsBare.fails_body (bare : i.IsBare) (here : At m code cursor rest w)
    (found : code[cursor]? = some instruction) {target : Text} {args : List Text}
    (op : instruction.op = .call target args)
    (room : ¬ i.setup.callLimit ≤ (rest.length + 1 : Nat)) {e : SourceError} {u : Machine}
    (refused : (i.bodyOf target args).run m = .error (.source e) u) :
    i.Fails m (.source e) u := by
  obtain ⟨⟨frame, stack, rfl, rfl⟩, rfl⟩ := here
  have stepped : (i.step frame.cursor instruction).run m = .error (.source e) u := by
    simp only [step, op, EStateM.run_bind, EStateM.run_get, stack, List.length_cons, if_neg room,
      refused]
  exact bare.fails_of_step stack found stepped

/-- A call opens a frame at the start of the body of its function. -/
theorem IsBare.turn_call (bare : i.IsBare) (here : At m code cursor rest w)
    (found : code[cursor]? = some instruction) {target : Text} {args : List Text}
    (op : instruction.op = .call target args)
    (room : ¬ i.setup.callLimit ≤ (rest.length + 1 : Nat)) {p : Program} {u : Machine}
    (body : (i.bodyOf target args).run m = .ok p u) (same : u.world = w) :
    ∃ m' caller, i.Turn m m' ∧ SameTables u m' ∧ caller.code = code ∧
      caller.cursor = cursor + 1 ∧ At m' p.instructions 0 (caller :: rest) w.step := by
  obtain ⟨⟨frame, stack, rfl, rfl⟩, rfl⟩ := here
  have stepped : ∃ callee, callee.code = p.instructions ∧ callee.cursor = 0 ∧
      (i.step frame.cursor instruction).run m =
        .ok ⟨frame.cursor + 1, some callee⟩ { u with frameCount := u.frameCount + 1 } := by
    refine ⟨⟨target, p.instructions, u.frameCount, instruction.location, 0, none⟩, rfl, rfl, ?_⟩
    simp only [step, op, EStateM.run_bind, EStateM.run_get, stack, List.length_cons, if_neg room,
      EStateM.run_pure, body]
    rfl
  obtain ⟨callee, calleeCode, calleeStart, stepped⟩ := stepped
  rw [← same]
  refine ⟨_, _, bare.turn_of_step stack found stepped, ⟨rfl, rfl⟩, ?_, ?_,
    ⟨⟨callee, rfl, calleeCode, calleeStart⟩, rfl⟩⟩
  · rfl
  · rfl

/-- Behind its last instruction a frame is left. -/
theorem turn_return (here : At m code cursor rest w) (done : code[cursor]? = none) :
    ∃ m', i.Turn m m' ∧ SameTables m m' ∧ m'.stack = rest ∧ m'.world = w := by
  obtain ⟨⟨frame, stack, rfl, rfl⟩, rfl⟩ := here
  refine ⟨{ m with stack := rest }, ⟨frame, rest, stack, ?_⟩, ⟨rfl, rfl⟩, rfl, rfl⟩
  rw [turn, done]
  rfl

end Interpreter
end TapeLang
