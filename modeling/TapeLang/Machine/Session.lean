import TapeLang.Machine.CCode
import TapeLang.Program.ShortForm

/-! What a machine can be asked for in a session, in any order. The state that a request
leaves, whether it fails or not, is the one that the next request finds. -/
namespace TapeLang

/-- A request. Those that execute a program take fuel. -/
inductive Request where
  | evaluate (fuel : Nat) (file text : Text)
  | run (fuel : Nat)
  | parse
  | check
  | reset
  | bodyOf (name : Text) (args : List Text)
  | shortForm
  | toC (limit : Int)
deriving DecidableEq, Repr

/-- The answer to a request that does not fail. -/
inductive Answer where
  | evaluated (size : Nat) (ending : Interpreter.Ending)
  | ran (ending : Interpreter.Ending)
  | parsed (size : Nat)
  | checked (loops : Nat)
  | wasReset
  | body (p : Program)
  | written (text : Text)
deriving DecidableEq, Repr

/-- Answers a request. A check works on a dictionary of its own. -/
def Interpreter.answer (i : Interpreter) : Request → Exec Answer
  | .evaluate fuel file text => do
    let (program, ending) ← i.evaluate fuel file text
    return .evaluated program.size ending
  | .run fuel => return .ran (← i.run fuel)
  | .parse => return .parsed (← i.parse).size
  | .check =>
    match i.check with
    | .ok loops => return .checked loops
    | .error e => throw (.source e)
  | .reset => do
    modify i.reset
    return .wasReset
  | .bodyOf name args => return .body (← i.bodyOf name args)
  | .shortForm => return .written (← i.parse).shortForm
  | .toC limit => return .written (← i.toC (← i.parse) limit).render

end TapeLang
