import TapeLang.Instruction

/-! Binding of loop brackets while instructions arrive: a closing bracket and the innermost
open one become partners. -/
namespace TapeLang

structure LoopBinder where
  instructions : Array Instruction := #[]
  /-- The indices of the open brackets, innermost first. -/
  pending : List Nat := []
deriving DecidableEq, Repr

namespace LoopBinder

/-- Adds an instruction. A closing bracket that closes nothing is refused. -/
def emit (b : LoopBinder) (i : Instruction) : Except SourceError LoopBinder :=
  let position := b.instructions.size
  match i.op with
  | .command .jump => .ok ⟨b.instructions.push i, position :: b.pending⟩
  | .command .back =>
    match b.pending with
    | [] => .error ⟨.unbalancedLoop .closing, i.location⟩
    | opening :: pending =>
      .ok ⟨(b.instructions.modify opening (·.bind position)).push (i.bind opening), pending⟩
  | _ => .ok { b with instructions := b.instructions.push i }

/-- The bound instructions, provided that no bracket is open. -/
def finish (b : LoopBinder) : Except SourceError (Array Instruction) :=
  match b.pending with
  | [] => .ok b.instructions
  | innermost :: _ =>
    .error ⟨.unbalancedLoop .opening, (b.instructions[innermost]?).bind (·.location)⟩

end LoopBinder
end TapeLang
