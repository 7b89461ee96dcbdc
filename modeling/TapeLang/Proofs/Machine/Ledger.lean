import TapeLang.Proofs.Machine.Attempts

/-! Ledgers of a session. What the turns of its executions enter is collected since its last fresh
start, and whatever else it does enters nothing. A relation of entries to machines that holds for a
single turn and for each of the other changes holds for a whole session, however its requests
end. -/
namespace TapeLang

namespace Request

/-- Whether a request begins with a fresh start. -/
def resets : Request → Bool
  | .run _ | .reset => true
  | _ => false

def fuel : Request → Nat
  | .evaluate fuel _ _ | .run fuel => fuel
  | _ => 0

end Request

namespace Interpreter

/-- A relation that allows whatever a machine does besides its turns. -/
structure Passive (i : Interpreter) (R : Machine → Machine → Prop) : Prop where
  notified : ∀ notice m, Leads R (i.notify notice) m
  tables : ∀ (m : Machine) definitions compiled, R m { m with definitions, compiled }
  size : ∀ (m : Machine) programSize, R m { m with counters := { m.counters with programSize } }
  frames : ∀ (m : Machine) stack frameCount, R m { m with stack, frameCount }

namespace Passive

variable {i : Interpreter} {R : Machine → Machine → Prop} [Std.Refl R] [IsTrans Machine R]

omit [Std.Refl R] in
theorem held (passive : i.Passive R) (m : Machine) (p : Program) : R m (m.holding p) :=
  trans_of R (passive.tables m p.definitions m.compiled) (passive.size _ _)

theorem parse (passive : i.Passive R) (m : Machine) : Leads R i.parse m := by
  unfold Interpreter.parse
  cases i.tokens with
  | error e => exact .throw _ _
  | ok tokens =>
    refine .bind ?_ fun p u _ => .bind (.modify (passive.size _ _)) fun _ v _ =>
      .bind (passive.notified _ v) fun _ _ _ => .pure _ _
    unfold Leads
    rw [run_declaring]
    cases (i.source.parse tokens).run m.definitions <;> exact passive.tables _ _ _

omit [Std.Refl R] [IsTrans Machine R] in
theorem bodyOf (passive : i.Passive R) (target : Text) (args : List Text) (m : Machine) :
    Leads R (i.bodyOf target args) m :=
  (retabled_bodyOf target args m).mono fun _ _ ⟨_, _, same⟩ => same ▸ passive.tables _ _ _

/-- A text is read, told to the handlers, and given its frame. -/
theorem evaluate_zero (passive : i.Passive R) (file text : Text) (m : Machine) :
    Leads R (i.evaluate 0 file text) m := by
  unfold Leads
  rw [evaluate_eq]
  cases i.readText file text m.definitions with
  | error e => exact Std.Refl.refl m
  | ok p =>
    have told := passive.notified (.programParsed p.size) (m.holding p)
    dsimp only
    cases notified : (i.notify (.programParsed p.size)).run (m.holding p) with
    | error fault u => exact trans_of R (passive.held m p) (told.of_error notified)
    | ok _ u =>
      have read : R m u := trans_of R (passive.held m p) (told.of_ok notified)
      exact trans_of R read (passive.frames _ _ _)

/-- The same is done at the beginning of a run, behind its fresh start. -/
theorem run_zero (passive : i.Passive R) (m : Machine) :
    R (i.reset m) (endState ((i.run 0).run m)) := by
  rw [run, EStateM.run_bind, EStateM.run_modify]
  refine Leads.bind (passive.parse _) fun p u _ => ?_
  refine Leads.bind (passive.notified _ u) fun _ v _ => ?_
  refine Leads.bind (.tryCatch ?_ fun fault w _ =>
    leads_reportFailure passive.notified fault w)
    fun ending w _ => ?_
  · exact .bind (.get (.bind (.modify (passive.frames _ _ _)) fun _ _ _ => .pure _ _))
      fun _ _ _ => .bind (.modify (passive.frames _ _ _)) fun _ _ _ => .pure _ _
  · exact .ite (.bind (passive.notified _ w) fun _ _ _ => .pure _ _) (.pure _ _)

/-- A request that neither executes a program nor starts afresh takes no turn. -/
theorem answer (passive : i.Passive R) {request : Request} (executes : request.executes = false)
    (kept : request ≠ .reset) (m : Machine) : Leads R (i.answer request) m := by
  cases request with
  | evaluate | run => cases executes
  | reset => exact absurd rfl kept
  | check =>
    unfold Leads
    rw [run_check]
    cases i.check <;> exact Std.Refl.refl m
  | parse | shortForm => exact .bind (passive.parse m) fun _ _ _ => .pure _ _
  | bodyOf name args => exact .bind (passive.bodyOf _ _ m) fun _ _ _ => .pure _ _
  | toC limit =>
    refine Leads.bind (passive.parse m) fun p u _ => ?_
    exact .bind (Program.leads_toC passive.bodyOf p _ _ u) fun _ _ _ => .pure _ _

end Passive

section

variable {ι : Type} (i : Interpreter) (entry : Frame → List Frame → Machine → Option ι)

/-- What the turns of an execution enter. -/
def collected : Nat → Machine → List ι
  | 0, _ => []
  | fuel + 1, m =>
    match m.stack with
    | [] => []
    | frame :: rest =>
      (entry frame rest m).toList ++
        match (i.turn frame rest).run m with
        | .error _ _ => []
        | .ok _ u => collected fuel u

/-- What a request enters. -/
def collectedOf (request : Request) (m : Machine) : List ι :=
  match i.beginning? m request with
  | none => []
  | some start => i.collected entry request.fuel start

/-- What a session enters since its last fresh start, behind what was entered before. -/
def collectedSince (before : List ι) : List Request → Machine → List ι
  | [], _ => before
  | request :: history, m =>
    collectedSince ((if request.resets then [] else before) ++ i.collectedOf entry request m)
      history (endState ((i.answer request).run m))

/-- The machine as the last fresh start of a session made it. -/
def freshStart (begun : Machine) : List Request → Machine → Machine
  | [], _ => begun
  | request :: history, m =>
    freshStart (if request.resets then i.reset m else begun) history
      (endState ((i.answer request).run m))

/-- A relation of entries to what becomes of machines, which is kept by every turn. -/
structure Account (R : List ι → Machine → Machine → Prop) : Prop where
  nil : ∀ m, R [] m m
  append : ∀ {first second m u v}, R first m u → R second u v → R (first ++ second) m v
  passive : i.Passive (R [])
  turn : ∀ frame rest m, R (entry frame rest m).toList m (endState ((i.turn frame rest).run m))

end

namespace Account

variable {ι : Type} {i : Interpreter} {entry : Frame → List Frame → Machine → Option ι}
variable {R : List ι → Machine → Machine → Prop}

theorem refl (account : i.Account entry R) : Std.Refl (R []) := ⟨account.nil⟩

theorem trans (account : i.Account entry R) : IsTrans Machine (R []) :=
  ⟨fun _ _ _ => account.append⟩

theorem execute (account : i.Account entry R) (fuel : Nat) (m : Machine) :
    R (i.collected entry fuel m) m (endState ((i.execute fuel).run m)) := by
  induction fuel generalizing m with
  | zero => exact account.nil m
  | succ fuel ih =>
    unfold collected
    cases stack : m.stack with
    | nil =>
      rw [run_execute_empty stack]
      exact account.nil m
    | cons frame rest =>
      have first := account.turn frame rest m
      rw [run_execute_succ stack]
      dsimp only
      cases turned : (i.turn frame rest).run m with
      | error fault u =>
        rw [turned] at first
        rw [run_bind_of_error turned, List.append_nil]
        exact first
      | ok _ u =>
        rw [turned] at first
        rw [run_bind_of_ok turned]
        exact account.append first (ih u)

theorem conclude (account : i.Account entry R) (fuel : Nat) (m : Machine) :
    R (i.collected entry fuel m) m (endState ((i.conclude fuel).run m)) := by
  have := account.refl
  have := account.trans
  simpa using account.append (account.execute fuel m) (leads_conclude account.passive.notified fuel m)

/-- A request leads from where it begins, or from the fresh start that it begins with. -/
theorem answer (account : i.Account entry R) (request : Request) (m : Machine) :
    R (i.collectedOf entry request m) (if request.resets then i.reset m else m)
      (endState ((i.answer request).run m)) := by
  have := account.refl
  have := account.trans
  cases request with
  | evaluate fuel file text =>
    have same : endState ((i.answer (.evaluate fuel file text)).run m) =
        endState ((i.evaluate fuel file text).run m) := endState_bind_pure _ _ m
    have read := account.passive.evaluate_zero file text m
    unfold Leads at read
    rw [same, evaluate_from, collectedOf, beginning?]
    cases began : (i.evaluate 0 file text).run m with
    | error fault u =>
      rw [began] at read
      exact read
    | ok made start =>
      rw [began] at read
      have executed := account.append read (account.execute fuel start)
      dsimp only
      cases ran : (i.execute fuel).run start <;> rw [ran] at executed <;> exact executed
  | run fuel =>
    have same : endState ((i.answer (.run fuel)).run m) = endState ((i.run fuel).run m) :=
      endState_bind_pure _ _ m
    have begun := account.passive.run_zero m
    rw [same, run_from, collectedOf, beginning?]
    cases began : (i.run 0).run m with
    | error fault u =>
      rw [began] at begun
      exact begun
    | ok _ start =>
      rw [began] at begun
      exact account.append begun (account.conclude fuel start)
  | reset => exact account.nil _
  | parse | check | bodyOf | shortForm | toC =>
    exact account.passive.answer rfl Request.noConfusion m

theorem after (account : i.Account entry R) {before : List ι} {begun m : Machine}
    (kept : R before begun m) (history : List Request) :
    R (i.collectedSince entry before history m) (i.freshStart begun history m)
      (i.after history m) := by
  induction history generalizing before begun m with
  | nil => exact kept
  | cons request rest ih =>
    apply ih
    have answered := account.answer request m
    cases resets : request.resets with
    | true =>
      rw [resets] at answered
      exact answered
    | false =>
      rw [resets] at answered
      exact account.append kept answered

end Account

/-- What holds of a machine before a session, and of every fresh start, holds where the session
last started afresh. -/
theorem freshStart_of_reset {i : Interpreter} {P : Machine → Prop} (anew : ∀ u, P (i.reset u))
    {begun : Machine} (new : P begun) (history : List Request) (m : Machine) :
    P (i.freshStart begun history m) := by
  induction history generalizing begun m with
  | nil => exact new
  | cons request rest ih =>
    apply ih
    cases request.resets with
    | true => exact anew m
    | false => exact new

end Interpreter
end TapeLang
