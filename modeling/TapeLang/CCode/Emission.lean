import TapeLang.CCode
import TapeLang.Call
import TapeLang.Program

/-! Programs written in C. Every function and argument list that a program reaches becomes
one C function; functions are taken level by level, in the order in which they are first
called. -/
namespace TapeLang

namespace Emission

/-- The C names given so far, and the calls of the next level, the last first. -/
structure Naming where
  names : CallTable Text := {}
  next : List Call := []

def Naming.nameOf (n : Naming) (target : Text) (args : List Text) : Text :=
  (n.names.find? ⟨target, args⟩).getD []

/-- Names a call that has no name yet, if calls may nest any deeper. -/
def Naming.meet (limit : Int) (deeper : Bool) (n : Naming) (i : Instruction) :
    Except SourceError Naming :=
  match i.op with
  | .command _ => .ok n
  | .call target args =>
    match n.names.find? ⟨target, args⟩ with
    | some _ => .ok n
    | none =>
      if deeper then
        let name := "bf_".toList ++ target ++ '_' :: Text.ofNat n.names.size
        .ok ⟨n.names.insert ⟨target, args⟩ name, ⟨target, args⟩ :: n.next⟩
      else .error ⟨.emissionTooDeep i.op.symbol limit, i.location⟩

def Naming.meetAll (limit : Int) (deeper : Bool) (n : Naming) (p : Program) :
    Except SourceError Naming :=
  p.instructions.toList.foldlM (Naming.meet limit deeper) n

def block (n : Naming) (p : Program) : List (Node Text) :=
  Node.ofOperations n.nameOf (p.instructions.toList.map (·.op))

/-- The functions done, and the naming as far as it is known. -/
structure Progress where
  naming : Naming
  functions : List CFunction := []

variable {σ ε : Type}

/-- Writes the bodies of one level. -/
def emitLevel (fault : SourceError → ε) (compile : Text → List Text → EStateM ε σ Program)
    (limit : Int) (deeper : Bool) : List Call → Progress → EStateM ε σ Progress
  | [], progress => pure progress
  | ⟨target, args⟩ :: rest, progress => do
    let program ← compile target args
    match progress.naming.meetAll limit deeper program with
    | .error e => throw (fault e)
    | .ok naming =>
      let function := ⟨naming.nameOf target args, block naming program⟩
      emitLevel fault compile limit deeper rest
        ⟨naming, progress.functions ++ [function]⟩

/-- Writes level after level until none is left, with a budget of further levels. -/
def emitWithin (fault : SourceError → ε)
    (compile : Text → List Text → EStateM ε σ Program) (limit : Int) :
    Nat → Progress → EStateM ε σ Progress
  | 0, progress => pure progress
  | budget + 1, progress =>
    if progress.naming.next.isEmpty then pure progress
    else do
      let level := progress.naming.next.reverse
      let progress := { progress with naming := { progress.naming with next := [] } }
      let progress ← emitLevel fault compile limit (0 < budget) level progress
      emitWithin fault compile limit budget progress

end Emission

open Emission in
/-- The C program of a program, whose functions are compiled on demand. A function first
reached through more nested functions than the limit is refused. -/
def Program.toC {σ ε : Type} (p : Program) (fault : SourceError → ε)
    (compile : Text → List Text → EStateM ε σ Program) (tapeSize : Nat) (limit : Int) :
    EStateM ε σ CProgram := do
  match Naming.meetAll limit (0 < limit) {} p with
  | .error e => throw (fault e)
  | .ok naming =>
    let main := block naming p
    let progress ← emitWithin fault compile limit limit.toNat ⟨naming, []⟩
    return ⟨tapeSize, progress.functions, main⟩

end TapeLang
