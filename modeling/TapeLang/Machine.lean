import TapeLang.Call
import TapeLang.Counters
import TapeLang.Extension.Services
import TapeLang.Machine.StepRecord
import TapeLang.Program

/-! The machine: what it is set up with, and everything that changes while it works. -/
namespace TapeLang

/-- A running list of instructions. The cursor is the index of the next one. -/
structure Frame where
  name : Text
  code : Array Instruction
  number : Nat
  calledFrom : Option Location
  cursor : Nat := 0
  lastRecord : Option StepRecord := none
deriving DecidableEq, Repr

/-- What a machine is set up with. The sink may refuse a byte, given those it has taken;
tokens stand in place of the source text. -/
structure Setup where
  source : Text := []
  file : Text
  tokens : Option (List Token) := none
  verbose : Bool := false
  traced : Bool := false
  tapeSize : Int := 30000
  callLimit : Int := 1000
  expansionLimit : Int := 64
  services : MachineServices := {}
  refuses : Array UInt8 → UInt8 → Option Text := fun _ _ => none

/-- The state of a machine: tape, counters, definitions, frames from the innermost out,
compiled calls, and the ends of its streams. A trace line is recorded for each step where
tracing is on, and every call of a handler is logged. -/
structure Machine where
  tape : Tape
  definitions : Dictionary
  input : List Int := []
  counters : Counters := {}
  stack : List Frame := []
  frameCount : Nat := 0
  compiled : CallTable Program := {}
  recorded : Nat := 0
  output : Array UInt8 := #[]
  trace : Array StepRecord := #[]
  log : Array LogEntry := #[]
deriving DecidableEq

/-- Work on a machine, which keeps its state when it fails. -/
abbrev Exec := EStateM Fault Machine

/-- A set-up whose preludes are read: the definitions that every run starts with. -/
structure Interpreter where
  setup : Setup
  blank : Tape
  base : Dictionary

inductive SetupError where
  | tapeSize
  | prelude (e : SourceError)
deriving DecidableEq, Repr

/-- Reads one prelude into a dictionary. -/
def Prelude.load (prelude : Prelude) (limit : Int) (dictionary : Dictionary) :
    Except SourceError Dictionary := do
  let file := Prelude.file prelude.name
  let tokens ← tokenize file prelude.text
  match ((Source.ofText file prelude.text limit).parse tokens).run dictionary with
  | .ok _ dictionary => return dictionary
  | .error e _ => throw e

namespace Setup

/-- A dictionary with the declarations of the preludes only. -/
def freshTable (s : Setup) : Except SourceError Dictionary :=
  s.services.preludes.foldlM (fun dictionary prelude => prelude.load s.expansionLimit dictionary) {}

def load (s : Setup) : Except SetupError Interpreter :=
  match Tape.ofSize? s.tapeSize with
  | none => .error .tapeSize
  | some blank =>
    match s.freshTable with
    | .error e => .error (.prelude e)
    | .ok base => .ok ⟨s, blank, base⟩

/-- Loading makes the tape and reads the preludes. -/
theorem load_eq_ok_iff {s : Setup} {i : Interpreter} :
    s.load = .ok i ↔
      i.setup = s ∧ Tape.ofSize? s.tapeSize = some i.blank ∧ s.freshTable = .ok i.base := by
  obtain ⟨setup, blank, base⟩ := i
  unfold load
  cases Tape.ofSize? s.tapeSize with
  | none => exact ⟨nofun, nofun⟩
  | some tape =>
    cases s.freshTable with
    | error e => exact ⟨nofun, nofun⟩
    | ok dictionary =>
      constructor
      · rintro ⟨⟩
        exact ⟨rfl, rfl, rfl⟩
      · rintro ⟨rfl, made, read⟩
        cases made
        cases read
        rfl

end Setup

namespace Interpreter

/-- The machine before its first run. -/
def start (i : Interpreter) (input : List Int) : Machine :=
  { tape := i.blank, definitions := i.base, input }

/-- The source that texts of a name are read from. -/
def sourceOf (i : Interpreter) (file text : Text) : Source :=
  Source.ofText file text i.setup.expansionLimit

/-- The tokens of the program that the machine was set up with. -/
def tokens (i : Interpreter) : Except SourceError (List Token) :=
  match i.setup.tokens with
  | some tokens => .ok tokens
  | none => tokenize i.setup.file i.setup.source

def source (i : Interpreter) : Source := i.sourceOf i.setup.file i.setup.source

/-- Whether steps are recorded. -/
def records (i : Interpreter) : Bool := i.setup.verbose || i.setup.traced

end Interpreter
end TapeLang
