import TapeLang.Extension.Hook

/-! Handlers of a running machine. A handler sees a notice and the tape; it may change the
tape, and it may raise. -/
namespace TapeLang

/-- What an event tells its handlers. -/
inductive Notice where
  | programParsed (size : Nat)
  | programStart (size : Nat)
  | beforeInstruction (i : Instruction)
  | afterInstruction (i : Instruction)
  | onError (fault : Fault)
  | programEnd (status : Nat)
deriving DecidableEq, Repr

def Notice.event : Notice → Event
  | programParsed _ => .programParsed
  | programStart _ => .programStart
  | beforeInstruction _ => .beforeInstruction
  | afterInstruction _ => .afterInstruction
  | onError _ => .onError
  | programEnd _ => .programEnd

/-- What a step rule sees: the count of the step, its kind and place, and the tape behind
it. -/
structure StepNotice where
  step : Nat
  kind : Text
  location : Option Location
  pointer : Nat
  cell : UInt8
deriving DecidableEq, Repr

/-- A reaction to what a handler sees. -/
abbrev Reaction (ν : Type) := ν → Tape → Tape × Option Fault

structure Handler (ν : Type) where
  label : Text
  react : Reaction ν

abbrev EventHandler := Handler Notice

abbrev RuleHandler := Handler StepNotice

/-- What a handler was called with. -/
inductive LogEntry where
  | event (label : Text) (notice : Notice)
  | step (label : Text) (context : StepNotice)
deriving DecidableEq, Repr

/-- Simple actions of a handler. -/
inductive HandlerAction where
  | nothing
  | raise (message : Text)
  | raiseRuntime (message : Text) (rule : Option Text)
  | setCell (value : Int)
  | movePointer (offset : Int)
deriving DecidableEq, Repr

/-- The reaction that takes an action, whatever it sees. A failing action leaves the tape. -/
def HandlerAction.reaction {ν : Type} (action : HandlerAction) : Reaction ν := fun _ tape =>
  let keep (result : Except TapeFault Tape) : Tape × Option Fault :=
    match result with
    | .ok tape => (tape, none)
    | .error fault => (tape, some (.ofTape fault))
  match action with
  | nothing => (tape, none)
  | raise message => (tape, some (.foreign message))
  | raiseRuntime message rule => (tape, some (.runtime { fault := .raised message, rule }))
  | setCell value => keep (tape.set value)
  | movePointer offset => keep (tape.move offset)

end TapeLang
