import TapeLang.Instruction
import TapeLang.Tape

/-! What can go wrong while a program runs. -/
namespace TapeLang

inductive RuntimeFault where
  | tape (fault : TapeFault)
  | endOfInput
  | callTooDeep (target : Text) (limit : Int)
  | undefinedFunction (name : Text)
  | hookFailed (event message : Text)
  | ruleFailed (message : Text)
  | internal (message : Text)
  | raised (message : Text)
deriving DecidableEq, Repr

namespace RuntimeFault

inductive Kind where
  | runtime
  | tapeBound
  | valueBound
  | callDepth
deriving DecidableEq, Repr

def kind : RuntimeFault → Kind
  | tape (.pointerOutside ..) => .tapeBound
  | tape (.valueOutside ..) | endOfInput => .valueBound
  | callTooDeep .. => .callDepth
  | undefinedFunction _ | hookFailed .. | ruleFailed _ | internal _ | raised _ => .runtime

namespace Kind

def name : Kind → String
  | runtime => "RuntimeError"
  | tapeBound => "TapeBoundViolation"
  | valueBound => "ValueBoundViolation"
  | callDepth => "CallDepthExceeded"

def exitCode : Kind → Nat
  | runtime => 1
  | tapeBound => 1
  | valueBound => 2
  | callDepth => 7

end Kind

def message : RuntimeFault → Text
  | tape (.pointerOutside target size) =>
    "Pointer moved to ".toList ++ Text.ofInt target ++ ", outside tape of ".toList ++
      Text.ofNat size ++ " cells".toList
  | tape (.valueOutside value cell) =>
    "Value ".toList ++ Text.ofInt value ++ " outside [0, 255] for cell C".toList ++
      Text.ofNat cell
  | endOfInput => "IN reached end of input".toList
  | callTooDeep target limit =>
    "Call to ".toList ++ target ++ " exceeds maximum call depth ".toList ++ Text.ofInt limit
  | undefinedFunction name => "Undefined function '".toList ++ name ++ ['\'']
  | hookFailed event message =>
    "Extension hook '".toList ++ event ++ "' failed: ".toList ++ message
  | ruleFailed message => "Extension step rule failed: ".toList ++ message
  | internal message => "Internal interpreter error: ".toList ++ message
  | raised message => message

end RuntimeFault

/-- A fault with the place, the rule and the count of completed steps, as far as known. -/
structure RuntimeError where
  fault : RuntimeFault
  location : Option Location := none
  rule : Option Text := none
  step : Option Nat := none
deriving DecidableEq, Repr

namespace RuntimeError

def message (e : RuntimeError) : Text := e.fault.message

/-- Fills in what is not known yet from the instruction that failed, and the step always. -/
def annotate (e : RuntimeError) (i : Instruction) (step : Nat) : RuntimeError :=
  { e with
    location := e.location.or i.location
    rule := e.rule.or (some i.op.kindName)
    step := some step }

end RuntimeError

/-- An error of the program, before or while it runs, or a failure from outside of it. -/
inductive Fault where
  | source (e : SourceError)
  | runtime (e : RuntimeError)
  | foreign (message : Text)
deriving DecidableEq, Repr

def Fault.ofTape (fault : TapeFault) : Fault := .runtime { fault := .tape fault }

end TapeLang
