import TapeLang.Call
import TapeLang.Program

/-! Counting loops without building instructions. A function body that the program reaches
is counted once for each list of arguments. -/
namespace TapeLang

/-- The loops closed so far, the places of the open ones, and the calls met, the last
first. -/
structure LoopCount where
  loops : Nat := 0
  pending : List Location := []
  calls : List (Definition × List Text) := []

namespace LoopCount

def consume (count : LoopCount) (item : Item) : Except SourceError LoopCount :=
  match item with
  | .call definition args _ => .ok { count with calls := (definition, args) :: count.calls }
  | .plain text location => do
    match (← Instruction.ofText text (some location)).op with
    | .command .jump => return { count with pending := location :: count.pending }
    | .command .back =>
      match count.pending with
      | [] => .error ⟨.unbalancedLoop .closing, some location⟩
      | _ :: pending => return { count with loops := count.loops + 1, pending }
    | _ => return count

def finish (count : LoopCount) : Except SourceError (Nat × List (Definition × List Text)) :=
  match count.pending with
  | [] => .ok (count.loops, count.calls)
  | innermost :: _ => .error ⟨.unbalancedLoop .opening, some innermost⟩

end LoopCount

/-- The loops of a token list itself, and the calls in it, the last first. -/
def Source.ownLoops (source : Source) (tokens : List Token) :
    Declaring (Nat × List (Definition × List Text)) :=
  source.consumeAll tokens {} LoopCount.consume LoopCount.finish

namespace LoopCheck

/-- The loops counted and the calls already counted. -/
structure Tally where
  loops : Nat
  seen : CallTable Unit := {}

/-- Counts the calls of one list in turn, each followed by the calls inside it. Without
`descend` the limit of nesting is reached and calls are left alone. -/
def countCalls (limit : Int)
    (descend : Option (List (Definition × List Text) → Tally → Declaring Tally)) :
    List (Definition × List Text) → Tally → Declaring Tally
  | [], tally => pure tally
  | (d, args) :: rest, tally =>
    match descend with
    | none => pure tally
    | some descend =>
      if tally.seen.contains ⟨d.name, args⟩ then countCalls limit (some descend) rest tally
      else do
        let (source, tokens) ← match d.bodySource args limit with
          | .error e => throw e
          | .ok body => pure body
        let (loops, inner) ← source.ownLoops tokens
        let tally ← descend inner ⟨tally.loops + loops, tally.seen.insert ⟨d.name, args⟩ ()⟩
        countCalls limit (some descend) rest tally

/-- Counting with a budget of levels of calls. -/
def countWithin (limit : Int) : Nat → List (Definition × List Text) → Tally → Declaring Tally
  | 0, calls, tally => countCalls limit none calls tally
  | budget + 1, calls, tally =>
    countCalls limit (some fun calls tally => countWithin limit budget calls tally) calls tally

end LoopCheck

/-- The number of loops of a source and of the function bodies reached from it within the
limit; fails where a bracket has no partner. -/
def Source.check (source : Source) (tokens : List Token) : Declaring Nat := do
  let (loops, calls) ← source.ownLoops tokens
  return (← LoopCheck.countWithin source.limit source.limit.toNat calls ⟨loops, {}⟩).loops

end TapeLang
