import TapeLang.Machine

/-! One step of the machine, with the events and rules around it. -/
namespace TapeLang.Interpreter

/-- Calls the handlers of an event in turn. A failure from outside of the program becomes
an error of the extension. -/
def notify (i : Interpreter) (notice : Notice) : Exec Unit := do
  let call (h : EventHandler) (m : Machine) : Machine × Option Fault :=
    let (tape, raised) := h.react notice m.tape
    ({ m with tape, log := m.log.push (.event h.label notice) }, raised)
  match callInTurn call (i.setup.services.hooks.handlers notice.event) (← get) with
  | (m, none) => set m
  | (m, some (.foreign message)) =>
    set m
    throw (.runtime
      { fault := .hookFailed notice.event.name.toList message, rule := some "EXT".toList })
  | (m, some fault) =>
    set m
    throw fault

/-- Work on the definitions alone. -/
def declaring {α : Type} (work : Declaring α) : Exec α := do
  match work.run (← get).definitions with
  | .ok a definitions =>
    modify fun m => { m with definitions }
    return a
  | .error e definitions =>
    modify fun m => { m with definitions }
    throw (.source e)

/-- The program of a function call, compiled once for each list of arguments. -/
def bodyOf (i : Interpreter) (name : Text) (args : List Text) : Exec Program := do
  let m ← get
  match m.compiled.find? ⟨name, args⟩ with
  | some program => return program
  | none =>
    match (m.definitions.find? name).filter (·.kind = .functionForm) with
    | none =>
      throw (.runtime { fault := .undefinedFunction name, rule := some "CALL".toList })
    | some definition =>
      let program ← declaring (definition.compile args i.setup.expansionLimit)
      modify fun m => { m with compiled := m.compiled.insert ⟨name, args⟩ program }
      return program

/-- A frame with the next free number. -/
def openFrame (name : Text) (code : Array Instruction) (calledFrom : Option Location) :
    Exec Frame := do
  let number := (← get).frameCount
  modify fun m => { m with frameCount := m.frameCount + 1 }
  return { name, code, number, calledFrom }

/-- Work on the tape alone. -/
def onTape (work : Tape → Except TapeFault Tape) : Exec Unit := do
  match work (← get).tape with
  | .ok tape => modify fun m => { m with tape }
  | .error fault => throw (.ofTape fault)

def count (f : Counters → Counters) : Exec Unit :=
  modify fun m => { m with counters := f m.counters }

def countMove : Exec Unit := count fun c => { c with moves := c.moves + 1 }

def countRead : Exec Unit := count fun c => { c with reads := c.reads + 1 }

def countWrite : Exec Unit := count fun c => { c with writes := c.writes + 1 }

/-- The next input value; none at the end of the input. -/
def nextInput : Exec (Option Int) := do
  match (← get).input with
  | [] => return none
  | value :: input =>
    modify fun m => { m with input }
    return some value

/-- Hands a byte to the sink. -/
def emit (i : Interpreter) (byte : UInt8) : Exec Unit := do
  match i.setup.refuses (← get).output byte with
  | none => modify fun m => { m with output := m.output.push byte }
  | some message => throw (.foreign message)

def perform (i : Interpreter) : Action → Exec Unit
  | .increment => do onTape (·.add 1); countWrite
  | .decrement => do onTape (·.add (-1)); countWrite
  | .left => do onTape (·.move (-1)); countMove
  | .right => do onTape (·.move 1); countMove
  | .output => do countRead; i.emit (← get).tape.get
  | .input => do
    match ← nextInput with
    | none => throw (.runtime { fault := .endOfInput })
    | some value =>
      if value < 0 then throw (.runtime { fault := .endOfInput })
      onTape (·.set value)
      countWrite

/-- The cursor behind an instruction, and the frame that a call opens. -/
structure Effect where
  cursor : Nat
  callee : Option Frame := none

/-- Carries out the instruction at a cursor. -/
def step (i : Interpreter) (cursor : Nat) (instruction : Instruction) : Exec Effect := do
  let partner := instruction.partner.getD cursor
  match instruction.op with
  | .command (.act action) =>
    i.perform action
    return ⟨cursor + 1, none⟩
  | .command .jump =>
    countRead
    return ⟨if (← get).tape.get = 0 then partner + 1 else cursor + 1, none⟩
  | .command .back =>
    countRead
    return ⟨if (← get).tape.get = 0 then cursor + 1 else partner, none⟩
  | .call target args =>
    if i.setup.callLimit ≤ (← get).stack.length then
      throw (.runtime { fault := .callTooDeep target i.setup.callLimit })
    let program ← i.bodyOf target args
    return ⟨cursor + 1, some (← openFrame target program.instructions instruction.location)⟩

/-- Runtime errors of a step tell where they arose and after how many steps. -/
def located {α : Type} (instruction : Instruction) (work : Exec α) : Exec α :=
  tryCatch work fun fault => do
    match fault with
    | .runtime e => throw (.runtime (e.annotate instruction (← get).counters.steps))
    | fault => throw fault

/-- The record of a step completed in a frame. -/
def recordOf (i : Interpreter) (m : Machine) (frame : Frame) (instruction : Instruction) :
    StepRecord :=
  { index := m.recorded, frame := frame.number, cursor := frame.cursor
    label := instruction.op.label, location := instruction.location, pointer := m.tape.pointer
    cell := m.tape.get
    snapshot := if i.setup.verbose then some m.tape.snapshot else none }

/-- Counts a completed step, records it and moves the cursor of its frame. -/
def complete (i : Interpreter) (frame : Frame) (rest : List Frame) (instruction : Instruction)
    (effect : Effect) (m : Machine) : Machine :=
  let entry := i.recordOf m frame instruction
  let lastRecord := if i.records then some entry else frame.lastRecord
  { m with
    counters := { m.counters with steps := m.counters.steps + 1 }
    stack := effect.callee.toList ++ { frame with cursor := effect.cursor, lastRecord } :: rest
    recorded := if i.records then m.recorded + 1 else m.recorded
    trace := if i.setup.traced then m.trace.push entry else m.trace }

/-- What the rules for a completed step see. -/
def contextOf (m : Machine) (instruction : Instruction) : StepNotice :=
  { step := m.counters.steps, kind := instruction.op.kindName
    location := instruction.location, pointer := m.tape.pointer, cell := m.tape.get }

/-- Applies the rules for a completed step. All see the state that it left. -/
def applyRules (i : Interpreter) (instruction : Instruction) : Exec Unit := do
  let m ← get
  let context := contextOf m instruction
  let call (h : RuleHandler) (m : Machine) : Machine × Option Fault :=
    let (tape, raised) := h.react context m.tape
    ({ m with tape, log := m.log.push (.step h.label context) }, raised)
  match callInTurn call
      (i.setup.services.hooks.applicable context.step context.kind) m with
  | (m, none) => set m
  | (m, some (.foreign message)) =>
    set m
    throw (.runtime
      { fault := .ruleFailed message, location := instruction.location
        rule := some "EXT".toList })
  | (m, some fault) =>
    set m
    throw fault

/-- One instruction of the innermost frame, from the event before it to the event after. -/
def advance (i : Interpreter) (frame : Frame) (rest : List Frame) (instruction : Instruction) :
    Exec Unit := do
  i.notify (.beforeInstruction instruction)
  let effect ← located instruction (i.step frame.cursor instruction)
  modify (i.complete frame rest instruction effect)
  i.applyRules instruction
  i.notify (.afterInstruction instruction)

end TapeLang.Interpreter
