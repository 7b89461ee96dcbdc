import TapeLang.Machine.Step
import TapeLang.Proofs.Program.Block
import TapeLang.Proofs.Program.Callees

/-! Structured runs. A statement list is run from front to back on a world without cursors,
partners or frames: a loop runs its body as long as the cell is not zero, and a call runs the
body of its function to its end. A run ends well or with an error, in the world that is left. -/
namespace TapeLang

/-- What statements work on. -/
structure World where
  tape : Tape
  input : List Int
  output : Array UInt8
  counters : Counters

/-- How statements end. -/
abbrev RunResult := EStateM.Result Fault World Unit

namespace World

/-- A completed step without any effect on the tape. -/
def step (w : World) : World :=
  { w with counters := { w.counters with steps := w.counters.steps + 1 } }

def read (w : World) : World :=
  { w with counters := { w.counters with reads := w.counters.reads + 1 } }

/-- A bracket, which reads the cell. -/
def bracket (w : World) : World := w.read.step

/-- Takes over the tape that an operation left, and counts it. -/
def takeTape (w : World) (count : Counters → Counters) : Except TapeFault Tape → RunResult
  | .ok tape => .ok () { w with tape, counters := count w.counters }
  | .error fault => .error (.ofTape fault) w

theorem takeTape_eq_ok {w u : World} {count : Counters → Counters} {worked : Except TapeFault Tape}
    (ended : w.takeTape count worked = .ok () u) :
    ∃ tape, worked = .ok tape ∧ u = { w with tape, counters := count w.counters } := by
  cases worked with
  | error fault => cases ended
  | ok tape =>
    cases ended
    exact ⟨tape, rfl, rfl⟩

theorem takeTape_eq_error {w u : World} {count : Counters → Counters}
    {worked : Except TapeFault Tape} {fault : Fault}
    (ended : w.takeTape count worked = .error fault u) : u = w := by
  cases worked with
  | ok tape => cases ended
  | error reason =>
    cases ended
    rfl

def endOfInput : Fault := .runtime { fault := .endOfInput }

/-- What an action does. The sink may refuse a byte, and input is used up even if the tape
refuses it. -/
def act (refuses : Array UInt8 → UInt8 → Option Text) (w : World) : Action → RunResult
  | .increment => w.takeTape (fun c => { c with writes := c.writes + 1 }) (w.tape.add 1)
  | .decrement => w.takeTape (fun c => { c with writes := c.writes + 1 }) (w.tape.add (-1))
  | .left => w.takeTape (fun c => { c with moves := c.moves + 1 }) (w.tape.move (-1))
  | .right => w.takeTape (fun c => { c with moves := c.moves + 1 }) (w.tape.move 1)
  | .output =>
    match refuses w.output w.tape.get with
    | none => .ok () { w.read with output := w.output.push w.tape.get }
    | some message => .error (.foreign message) w.read
  | .input =>
    match w.input with
    | [] => .error endOfInput w
    | value :: input =>
      if value < 0 then .error endOfInput { w with input }
      else
        { w with input }.takeTape (fun c => { c with writes := c.writes + 1 }) (w.tape.set value)

end World

/-- A fault of a statement, with what is known of its place. -/
def Fault.placed (fault : Fault) (op : Operation) (location : Option Location) (w : World) :
    Fault :=
  match fault with
  | .runtime e => .runtime (e.annotate { op, location } w.counters.steps)
  | fault => fault

/-- `Runs i dictionary depth block w result`: with so many frames open, the statements take the
world to the result. -/
inductive Runs (i : Interpreter) (dictionary : Dictionary) :
    Nat → List Statement → World → RunResult → Prop where
  | nil {depth w} : Runs i dictionary depth [] w (.ok () w)
  | act {depth action location rest w u result} :
      w.act i.setup.refuses action = .ok () u →
      Runs i dictionary depth rest u.step result →
      Runs i dictionary depth (.act action location :: rest) w result
  | actFails {depth action location rest w fault u} :
      w.act i.setup.refuses action = .error fault u →
      Runs i dictionary depth (.act action location :: rest) w
        (.error (fault.placed (.command (.act action)) location u) u)
  | skip {depth body rest w result} :
      w.tape.get = 0 →
      Runs i dictionary depth rest w.bracket result →
      Runs i dictionary depth (.loop body :: rest) w result
  | bodyFails {depth body rest w fault u} :
      w.tape.get ≠ 0 →
      Runs i dictionary depth body w.bracket (.error fault u) →
      Runs i dictionary depth (.loop body :: rest) w (.error fault u)
  | leave {depth body rest w u result} :
      w.tape.get ≠ 0 →
      Runs i dictionary depth body w.bracket (.ok () u) → u.tape.get = 0 →
      Runs i dictionary depth rest u.bracket result →
      Runs i dictionary depth (.loop body :: rest) w result
  | again {depth body rest w u result} :
      w.tape.get ≠ 0 →
      Runs i dictionary depth body w.bracket (.ok () u) → u.tape.get ≠ 0 →
      Runs i dictionary depth (.loop body :: rest) u.bracket result →
      Runs i dictionary depth (.loop body :: rest) w result
  | tooDeep {depth : Nat} {target args location rest w} :
      i.setup.callLimit ≤ depth →
      Runs i dictionary depth (.call target args location :: rest) w
        (.error ((Fault.runtime { fault := .callTooDeep target i.setup.callLimit }).placed
          (.call target args) location w) w)
  | refused {depth : Nat} {target args location rest w e} :
      ¬ i.setup.callLimit ≤ depth →
      dictionary.body i.setup.expansionLimit ⟨target, args⟩ = .error e →
      Runs i dictionary depth (.call target args location :: rest) w (.error (.source e) w)
  | calleeFails {depth : Nat} {target args location rest w p fault u} :
      ¬ i.setup.callLimit ≤ depth →
      dictionary.body i.setup.expansionLimit ⟨target, args⟩ = .ok p →
      Runs i dictionary (depth + 1) p.block w.step (.error fault u) →
      Runs i dictionary depth (.call target args location :: rest) w (.error fault u)
  | call {depth : Nat} {target args location rest w p u result} :
      ¬ i.setup.callLimit ≤ depth →
      dictionary.body i.setup.expansionLimit ⟨target, args⟩ = .ok p →
      Runs i dictionary (depth + 1) p.block w.step (.ok () u) →
      Runs i dictionary depth rest u result →
      Runs i dictionary depth (.call target args location :: rest) w result

end TapeLang
