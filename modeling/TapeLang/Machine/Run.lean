import TapeLang.Machine.Step
import TapeLang.Program.LoopCheck

/-! What a machine is asked to do: parse, check, run from the start, or execute a text
against the state at hand. Running takes fuel, one unit for each instruction or return. -/
namespace TapeLang.Interpreter

inductive Ending where
  | finished
  | outOfFuel
deriving DecidableEq, Repr

/-- Advances the innermost frame until no frame is left. -/
def execute (i : Interpreter) : Nat → Exec Ending
  | 0 => return .outOfFuel
  | fuel + 1 => do
    match (← get).stack with
    | [] => return .finished
    | frame :: rest =>
      match frame.code[frame.cursor]? with
      | none => modify fun m => { m with stack := rest }
      | some instruction => i.advance frame rest instruction
      i.execute fuel

/-- Opens the outermost frame and executes the program in it. -/
def executeProgram (i : Interpreter) (fuel : Nat) (program : Program) : Exec Ending := do
  let frame ← openFrame "<top-level>".toList program.instructions none
  modify fun m => { m with stack := frame :: m.stack }
  i.execute fuel

/-- Everything that a run starts afresh; the streams and the log go on. -/
def reset (i : Interpreter) (m : Machine) : Machine :=
  { m with
    tape := i.blank, definitions := i.base, counters := {}, stack := [], frameCount := 0
    compiled := {}, recorded := 0 }

def addSize (program : Program) : Exec Unit :=
  count fun c => { c with programSize := c.programSize + program.size }

/-- Parses the program of the set-up into the definitions at hand. -/
def parse (i : Interpreter) : Exec Program := do
  match i.tokens with
  | .error e => throw (.source e)
  | .ok tokens =>
    let program ← declaring (i.source.parse tokens)
    addSize program
    i.notify (.programParsed program.size)
    return program

/-- Counts the loops of the program of the set-up, on a dictionary of its own. -/
def check (i : Interpreter) : Except SourceError Nat := do
  match (i.source.check (← i.tokens)).run i.base with
  | .ok loops _ => return loops
  | .error e _ => throw e

/-- Reports a failure to the handlers and passes it on. What came from outside of the
program turns into an internal error. -/
def reportFailure (i : Interpreter) (fault : Fault) : Exec Ending := do
  i.notify (.onError fault)
  match fault with
  | .foreign message =>
    throw (.runtime
      { fault := .internal message, rule := some "internal".toList
        step := some (← get).counters.steps })
  | fault => throw fault

/-- Runs the program of the set-up from a fresh start. -/
def run (i : Interpreter) (fuel : Nat) : Exec Ending := do
  modify i.reset
  let program ← i.parse
  i.notify (.programStart program.size)
  let ending ← tryCatch (i.executeProgram fuel program) i.reportFailure
  if ending = .finished then i.notify (.programEnd 0)
  return ending

/-- Parses a text and executes it on the state at hand. Its declarations are kept only if
the whole text parses. -/
def evaluate (i : Interpreter) (fuel : Nat) (file text : Text) : Exec (Program × Ending) := do
  match tokenize file text with
  | .error e => throw (.source e)
  | .ok tokens =>
    match ((i.sourceOf file text).parse tokens).run (← get).definitions with
    | .error e _ => throw (.source e)
    | .ok program definitions =>
      modify fun m => { m with definitions }
      addSize program
      i.notify (.programParsed program.size)
      modify fun m => { m with stack := [] }
      return (program, ← i.executeProgram fuel program)

end TapeLang.Interpreter
