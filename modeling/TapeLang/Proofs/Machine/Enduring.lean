import TapeLang.Proofs.Machine.Ledger

/-! What endures in a session, whatever its handlers do. A handler touches the tape and the log
alone; so a property that does not depend on these, and that no instruction destroys nor the return
from a frame, holds between any two turns of an execution and where it ends. If the opening of
a frame on a program that was read does not destroy it either, and every fresh start has it, it
holds throughout each session. -/
namespace TapeLang.Interpreter

variable {i : Interpreter} {P : Machine → Prop} {m u start : Machine} {request : Request}

/-- A property that is not lost while programs are executed. -/
structure Lasting (i : Interpreter) (P : Machine → Prop) : Prop where
  learns : ∀ m u, i.Learns m u → P m → P u
  returned : ∀ (m : Machine) frame rest, m.stack = frame :: rest → P m → P { m with stack := rest }
  stepped : ∀ (m : Machine) frame rest instruction effect u, m.stack = frame :: rest →
    frame.code[frame.cursor]? = some instruction →
    i.Stepped m frame.cursor instruction effect u → P m →
    P (i.complete frame rest instruction effect u)

/-- A property that is not lost in a session. -/
structure Enduring (i : Interpreter) (P : Machine → Prop) : Prop extends Lasting i P where
  reset : ∀ m, P (i.reset m)
  opens : ∀ (m : Machine) p (source : Source) tokens before,
    (source.parse tokens).run before = .ok p m.definitions → P m → P (m.opened p)

namespace Lasting

/-- It is kept by a turn, whether that fails or not. -/
theorem turn (lasting : i.Lasting P) {frame : Frame} {rest : List Frame}
    (stack : m.stack = frame :: rest) (holds : P m) : P (endState ((i.turn frame rest).run m)) := by
  unfold Interpreter.turn
  cases found : frame.code[frame.cursor]? with
  | none => exact lasting.returned m frame rest stack holds
  | some instruction =>
    have advanced := i.advanced m frame rest instruction
    dsimp only
    generalize i.attempt frame rest instruction m = attempt at advanced
    generalize (i.advance frame rest instruction).run m = ended at advanced ⊢
    cases advanced with
    | kept told => exact lasting.learns _ _ ((i.learns_notify _ m).of_error told) holds
    | refused told refused =>
      exact lasting.learns _ _ refused.learns
        (lasting.learns _ _ ((i.learns_notify _ m).of_ok told) holds)
    | @completed u effect v told stepped =>
      have learns := (i.learns_notify _ m).of_ok told
      have left := lasting.stepped u frame rest instruction effect v (learns.stack.trans stack)
        found stepped (lasting.learns _ _ learns holds)
      exact lasting.learns _ _ (learns_of_aside _ _ (i.aside_behind instruction _)) left

theorem turns (lasting : i.Lasting P) {n : Nat} (turns : i.Turns n m u) (holds : P m) : P u := by
  induction turns with
  | nil => exact holds
  | cons turn _ ih =>
    obtain ⟨frame, rest, stack, turned⟩ := turn
    have kept := lasting.turn stack holds
    rw [turned] at kept
    exact ih kept

theorem execute (lasting : i.Lasting P) (fuel : Nat) (holds : P m) :
    P (endState ((i.execute fuel).run m)) := by
  rcases i.execute_cases fuel m with
    ⟨_, n, u, ran, turns, -⟩ | ⟨_, u, n, v, ran, turns, frame, rest, stack, failed⟩
  · rw [ran]
    exact lasting.turns turns holds
  · have kept := lasting.turn stack (lasting.turns turns holds)
    rw [failed] at kept
    rw [ran]
    exact kept

end Lasting

/-- The machine that a request sets out from: a run starts afresh, and so does a reset. -/
def outset (i : Interpreter) (request : Request) (m : Machine) : Machine :=
  if request.resets then i.reset m else m

/-- The program that a request executes, if it can be read. -/
def program? (i : Interpreter) (m : Machine) : Request → Option Program
  | .evaluate _ file text => (i.readText file text m.definitions).toOption
  | .run _ => i.readSetup.toOption
  | _ => none

/-- A program was read on a machine and told to its handlers, and a frame is opened on it. -/
def Opens (m : Machine) (p : Program) (start : Machine) : Prop :=
  ∃ u, (m.holding p).Aside u ∧ start = u.opened p

theorem exists_parse_of_program? {p : Program} (read : i.program? m request = some p) :
    ∃ (source : Source) (tokens : List Token),
      (source.parse tokens).run (i.outset request m).definitions = .ok p p.definitions := by
  cases request with
  | evaluate fuel file text =>
    cases given : i.readText file text m.definitions with
    | error e => rw [program?, given] at read; cases read
    | ok q =>
      rw [program?, given] at read
      cases read
      obtain ⟨tokens, -, parsed⟩ := exists_parse_of_readText given
      exact ⟨_, tokens, parsed⟩
  | run fuel =>
    cases given : i.readSetup with
    | error e => rw [program?, given] at read; cases read
    | ok q =>
      rw [program?, given] at read
      cases read
      obtain ⟨tokens, -, parsed⟩ := exists_parse_of_readSetup given
      exact ⟨_, tokens, parsed⟩
  | parse | check | reset | bodyOf | shortForm | toC => cases read

/-- A text begins to be executed if it can be read and none of the handlers that are told of it
raises. -/
theorem beginning?_evaluate {fuel : Nat} {file text : Text} :
    i.beginning? m (.evaluate fuel file text) = some start ↔
      ∃ p u, i.readText file text m.definitions = .ok p ∧
        (i.notify (.programParsed p.size)).run (m.holding p) = .ok () u ∧ u.opened p = start := by
  rw [beginning?, evaluate_eq]
  cases read : i.readText file text m.definitions with
  | error e => simp
  | ok p =>
    dsimp only
    cases told : (i.notify (.programParsed p.size)).run (m.holding p) with
    | error fault u => simp [told]
    | ok _ u =>
      change some (u.opened p) = some start ↔ _
      simp [told]

/-- A run does if its program can be read and neither its first notice raises nor the second. -/
theorem beginning?_run {fuel : Nat} :
    i.beginning? m (.run fuel) = some start ↔
      ∃ p u v, i.parse.run (i.reset m) = .ok p u ∧
        (i.notify (.programStart p.size)).run u = .ok () v ∧ v.opened p = start := by
  rw [beginning?, run_eq]
  cases parsed : i.parse.run (i.reset m) with
  | error fault u => simp
  | ok p u =>
    dsimp only
    cases told : (i.notify (.programStart p.size)).run u with
    | error fault v => simp [told]
    | ok _ v =>
      change some (v.opened p) = some start ↔ _
      simp [told]

/-- An execution begins in a frame on the program that was read. -/
theorem opens_of_beginning? (began : i.beginning? m request = some start) :
    ∃ p, i.program? m request = some p ∧ Opens (i.outset request m) p start := by
  cases request with
  | evaluate fuel file text =>
    obtain ⟨p, u, read, told, rfl⟩ := beginning?_evaluate.mp began
    exact ⟨p, by rw [program?, read]; rfl, u, (i.aside_notify _ _).of_ok told, rfl⟩
  | run fuel =>
    obtain ⟨p, u, v, parsed, told, rfl⟩ := beginning?_run.mp began
    cases lexed : i.tokens with
    | error e =>
      unfold parse at parsed
      rw [lexed] at parsed
      cases parsed
    | ok tokens =>
      obtain ⟨made, toldParsed⟩ := (run_parse_eq_ok_iff lexed).mp parsed
      have read : i.readSetup = .ok p := by
        rw [readSetup_of_tokens lexed]
        change outcome ((i.source.parse tokens).run (i.reset m).definitions) = .ok p
        rw [made]
        rfl
      have aside := ((i.aside_notify _ _).of_ok toldParsed).trans ((i.aside_notify _ _).of_ok told)
      exact ⟨p, by rw [program?, read]; rfl, v, aside, rfl⟩
  | parse | check | reset | bodyOf | shortForm | toC => cases began

/-- A request that does not begin an execution gathers, on the machine that it sets out from. -/
theorem learns_of_beginning?_none (none : i.beginning? m request = none) :
    i.Learns (i.outset request m) (endState ((i.answer request).run m)) := by
  cases request with
  | evaluate fuel file text =>
    have same : endState ((i.answer (.evaluate fuel file text)).run m) =
        endState ((i.evaluate fuel file text).run m) := endState_bind_pure _ _ m
    rw [same, evaluate_eq]
    cases read : i.readText file text m.definitions with
    | error e => exact Std.Refl.refl m
    | ok p =>
      obtain ⟨tokens, -, parsed⟩ := exists_parse_of_readText read
      have held : i.Learns m (m.holding p) := learns_holding parsed
      dsimp only
      cases told : (i.notify (.programParsed p.size)).run (m.holding p) with
      | error fault u => exact held.trans ((i.learns_notify _ _).of_error told)
      | ok _ u =>
        cases none.symm.trans (beginning?_evaluate.mpr ⟨p, u, read, told, rfl⟩)
  | run fuel =>
    have same : endState ((i.answer (.run fuel)).run m) = endState ((i.run fuel).run m) :=
      endState_bind_pure _ _ m
    rw [same, run_eq]
    cases parsed : i.parse.run (i.reset m) with
    | error fault u => exact (i.learns_parse _).of_error parsed
    | ok p u =>
      have read := (i.learns_parse _).of_ok parsed
      dsimp only
      cases told : (i.notify (.programStart p.size)).run u with
      | error fault v => exact read.trans ((i.learns_notify _ _).of_error told)
      | ok _ v => cases none.symm.trans (beginning?_run.mpr ⟨p, u, v, parsed, told, rfl⟩)
  | reset => exact Std.Refl.refl _
  | parse | check | bodyOf | shortForm | toC =>
    exact learns_answer rfl Request.noConfusion m

/-- A request that begins an execution leaves what that leaves, but for what handlers do to it. -/
theorem aside_of_beginning? (began : i.beginning? m request = some start) :
    (endState ((i.execute request.fuel).run start)).Aside
      (endState ((i.answer request).run m)) := by
  cases request with
  | evaluate fuel file text =>
    have same : endState ((i.answer (.evaluate fuel file text)).run m) =
        endState ((i.evaluate fuel file text).run m) := endState_bind_pure _ _ m
    obtain ⟨p, u, read, told, rfl⟩ := beginning?_evaluate.mp began
    rw [same, evaluate_eq, read]
    dsimp only
    rw [told]
    dsimp only [Request.fuel]
    cases (i.execute fuel).run (u.opened p) <;> exact Std.Refl.refl (r := Machine.Aside) _
  | run fuel =>
    have same : endState ((i.answer (.run fuel)).run m) = endState ((i.run fuel).run m) :=
      endState_bind_pure _ _ m
    obtain ⟨p, u, v, parsed, told, rfl⟩ := beginning?_run.mp began
    rw [same, run_eq, parsed]
    dsimp only
    rw [told]
    exact leads_conclude aside_notify fuel (v.opened p)
  | parse | check | reset | bodyOf | shortForm | toC => cases began

theorem reportFailure_fails (i : Interpreter) (fault : Fault) (m : Machine) :
    ∃ reported last, (i.reportFailure fault).run m = .error reported last := by
  unfold reportFailure
  cases told : (i.notify (.onError fault)).run m with
  | error raised u => exact ⟨raised, u, run_bind_of_error told _⟩
  | ok _ u =>
    rw [run_bind_of_ok told]
    cases fault <;> exact ⟨_, u, rfl⟩

/-- If the execution fails, so does the request, though a handler that is told of it may raise an
error of its own. -/
theorem failed_of_beginning? (began : i.beginning? m request = some start) {fault : Fault}
    (failed : (i.execute request.fuel).run start = .error fault u) :
    ∃ reported last, (i.answer request).run m = .error reported last ∧ u.Aside last := by
  have fails : ∃ reported last, (i.answer request).run m = .error reported last := by
    cases request with
    | evaluate fuel file text =>
      obtain ⟨p, v, read, told, rfl⟩ := beginning?_evaluate.mp began
      have ended : (i.evaluate fuel file text).run m = .error fault u := by
        rw [evaluate_eq, read]
        dsimp only
        rw [told]
        dsimp only
        rw [show (i.execute fuel).run (v.opened p) = .error fault u from failed]
      exact ⟨fault, u, run_bind_of_error ended _⟩
    | run fuel =>
      obtain ⟨p, v, w, parsed, told, rfl⟩ := beginning?_run.mp began
      obtain ⟨reported, last, raised⟩ := i.reportFailure_fails fault u
      have caught : (tryCatch (i.execute fuel) i.reportFailure).run (w.opened p) =
          .error reported last := by
        rw [run_tryCatch, show (i.execute fuel).run (w.opened p) = .error fault u from failed]
        exact raised
      have ended : (i.run fuel).run m = .error reported last := by
        rw [run_eq, parsed]
        dsimp only
        rw [told]
        exact run_bind_of_error caught _
      exact ⟨reported, last, run_bind_of_error ended _⟩
    | parse | check | reset | bodyOf | shortForm | toC => cases began
  obtain ⟨reported, last, ended⟩ := fails
  have aside := aside_of_beginning? began
  rw [failed, ended] at aside
  exact ⟨reported, last, ended, aside⟩

namespace Enduring

theorem outset (enduring : i.Enduring P) (request : Request) (holds : P m) :
    P (i.outset request m) := by
  unfold Interpreter.outset
  split
  · exact enduring.reset m
  · exact holds

theorem beginning? (enduring : i.Enduring P) (began : i.beginning? m request = some start)
    (holds : P m) : P start := by
  obtain ⟨p, read, u, aside, rfl⟩ := opens_of_beginning? began
  obtain ⟨source, tokens, parsed⟩ := exists_parse_of_program? read
  have held := enduring.learns _ _ (learns_holding parsed) (enduring.outset request holds)
  have told := enduring.learns _ _ (learns_of_aside _ _ aside) held
  obtain ⟨_, _, rfl⟩ := aside
  exact enduring.opens _ p source tokens _ parsed told

theorem answer (enduring : i.Enduring P) (request : Request) (holds : P m) :
    P (endState ((i.answer request).run m)) := by
  cases began : i.beginning? m request with
  | none =>
    exact enduring.learns _ _ (learns_of_beginning?_none began) (enduring.outset request holds)
  | some start =>
    have executed := enduring.execute request.fuel (enduring.beginning? began holds)
    exact enduring.learns _ _ (learns_of_aside _ _ (aside_of_beginning? began)) executed

/-- It holds after any requests. Where the fuel of the last one ends in the midst of an execution,
that is between two of its turns. -/
theorem after (enduring : i.Enduring P) (history : List Request) (input : List Int) :
    P (i.after history (i.start input)) := by
  have kept (m : Machine) (holds : P m) : P (i.after history m) := by
    induction history generalizing m with
    | nil => exact holds
    | cons request rest ih => exact ih _ (enduring.answer request holds)
  exact kept _ (enduring.reset (i.start input))

end Enduring

end TapeLang.Interpreter
