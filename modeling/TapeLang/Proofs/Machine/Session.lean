import TapeLang.Machine.Session
import TapeLang.Proofs.Effect

/-! Sessions. A run starts from what its machine was set up with: behind any requests it does
what the run of a new machine does with the input that is left, and adds to the output, the
trace and the log. Two runs are followed side by side, one behind what the session left. -/
namespace TapeLang

section

variable {ε σ τ α : Type}

/-- A result with another state. -/
def mapState (f : σ → τ) : EStateM.Result ε σ α → EStateM.Result ε τ α
  | .ok a s => .ok a (f s)
  | .error e s => .error e (f s)

end

/-- Handlers that commute with a change of the state leave it so in turn. -/
theorem callInTurn_map {α σ ε : Type} {call : α → σ → σ × Option ε} {f : σ → σ}
    (commutes : ∀ a s, call a (f s) = (f (call a s).1, (call a s).2)) (handlers : List α) (s : σ) :
    callInTurn call handlers (f s) =
      (f (callInTurn call handlers s).1, (callInTurn call handlers s).2) := by
  induction handlers generalizing s with
  | nil => rfl
  | cons a rest ih =>
    simp only [callInTurn, commutes]
    rcases call a s with ⟨s, _ | e⟩
    · exact ih s
    · rfl

theorem callInTurn_preserves {α σ ε : Type} {call : α → σ → σ × Option ε} {P : σ → Prop}
    (preserves : ∀ a s, P s → P (call a s).1) (handlers : List α) {s : σ} (start : P s) :
    P (callInTurn call handlers s).1 := by
  induction handlers generalizing s with
  | nil => exact start
  | cons a rest ih =>
    have next := preserves a s start
    simp only [callInTurn]
    rcases called : call a s with ⟨s, _ | e⟩
    · rw [called] at next
      exact ih next
    · rw [called] at next
      exact next

/-- A sink takes bytes one after the other, behind those that it has taken. -/
def Accepts (refuses : Array UInt8 → UInt8 → Option Text) (taken bytes : Array UInt8) : Prop :=
  ∀ front b, (front.push b).toList <+: bytes.toList → refuses (taken ++ front) b = none

/-- The machine behind the output, the trace and the log of a past one. -/
def Machine.behind (m past : Machine) : Machine :=
  { m with
    output := past.output ++ m.output, trace := past.trace ++ m.trace, log := past.log ++ m.log }

namespace Interpreter

/-- The same set-up with a sink that takes every byte. -/
def accepting (i : Interpreter) : Interpreter :=
  { i with setup := { i.setup with refuses := fun _ _ => none } }

/-- `Continues i past x y m`: work on a machine behind a past one does what other work does on
the machine itself, provided that the sink takes what that writes. -/
structure Continues (i : Interpreter) (past : Machine) {α : Type} (x y : Exec α) (m : Machine) :
    Prop where
  grows : m.output.toList <+: (endState (y.run m)).output.toList
  same : Accepts i.setup.refuses past.output (endState (y.run m)).output →
    x.run (m.behind past) = mapState (·.behind past) (y.run m)

namespace Continues

variable {i : Interpreter} {past m : Machine} {α β : Type} {x y : Exec α}

theorem pure (a : α) : Continues i past (pure a) (pure a) m :=
  ⟨List.prefix_refl _, fun _ => rfl⟩

theorem throw (fault : Fault) :
    Continues i past (throw fault : Exec α) (MonadExcept.throw fault) m :=
  ⟨List.prefix_refl _, fun _ => rfl⟩

theorem bind {f g : α → Exec β} (first : Continues i past x y m)
    (next : ∀ a u, y.run m = .ok a u → Continues i past (f a) (g a) u) :
    Continues i past (x >>= f) (y >>= g) m := by
  obtain ⟨grows, same⟩ := first
  cases ended : y.run m with
  | error e u =>
    rw [ended] at grows same
    constructor
    · rw [run_bind_of_error ended]
      exact grows
    · intro accepts
      rw [run_bind_of_error ended] at accepts ⊢
      exact run_bind_of_error (same accepts) f
  | ok a u =>
    obtain ⟨growsNext, sameNext⟩ := next a u ended
    rw [ended] at grows same
    constructor
    · rw [run_bind_of_ok ended]
      exact grows.trans growsNext
    · intro accepts
      rw [run_bind_of_ok ended] at accepts ⊢
      have before := same fun front b written => accepts front b (written.trans growsNext)
      rw [run_bind_of_ok before]
      exact sameNext accepts

/-- Work that looks at the machine sees the one behind the past one. -/
theorem get {f g : Machine → Exec α} (next : Continues i past (f (m.behind past)) (g m) m) :
    Continues i past (get >>= f) (get >>= g) m :=
  ⟨next.grows, next.same⟩

theorem set {u : Machine} (grows : m.output.toList <+: u.output.toList) :
    Continues i past (set (u.behind past)) (set u) m :=
  ⟨grows, fun _ => rfl⟩

theorem modify {f : Machine → Machine} (grows : m.output.toList <+: (f m).output.toList)
    (commutes : f (m.behind past) = (f m).behind past) :
    Continues i past (modify f) (modify f) m :=
  ⟨grows, fun _ => congrArg (EStateM.Result.ok ()) commutes⟩

theorem tryCatch {f g : Fault → Exec α} (work : Continues i past x y m)
    (handled : ∀ e u, y.run m = .error e u → Continues i past (f e) (g e) u) :
    Continues i past (tryCatch x f) (tryCatch y g) m := by
  obtain ⟨grows, same⟩ := work
  cases ended : y.run m with
  | ok a u =>
    rw [ended] at grows same
    constructor
    · rw [run_tryCatch, ended]
      exact grows
    · intro accepts
      rw [run_tryCatch, ended] at accepts
      rw [run_tryCatch, run_tryCatch, same accepts, ended]
      rfl
  | error e u =>
    obtain ⟨growsNext, sameNext⟩ := handled e u ended
    rw [ended] at grows same
    constructor
    · rw [run_tryCatch, ended]
      exact grows.trans growsNext
    · intro accepts
      rw [run_tryCatch, ended] at accepts
      have before := same fun front b written => accepts front b (written.trans growsNext)
      rw [run_tryCatch, run_tryCatch, before, ended]
      exact sameNext accepts

theorem ite {condition : Prop} [Decidable condition] {x' y' : Exec α}
    (yes : Continues i past x y m) (no : Continues i past x' y' m) :
    Continues i past (if condition then x else x') (if condition then y else y') m := by
  split
  · exact yes
  · exact no

/-- Handlers called in turn, whatever becomes of a failure from outside of the program. -/
theorem handlers {η : Type} {call : η → Machine → Machine × Option Fault}
    (commutes : ∀ h m, call h (m.behind past) = ((call h m).1.behind past, (call h m).2))
    (silent : ∀ h m, (call h m).1.output = m.output) (handlers : List η)
    (report : Text → Fault) :
    Continues i past
      (match callInTurn call handlers (m.behind past) with
        | (m, none) => MonadStateOf.set m
        | (m, some (.foreign message)) => do
          MonadStateOf.set m
          MonadExcept.throw (report message)
        | (m, some fault) => do
          MonadStateOf.set m
          MonadExcept.throw fault)
      (match callInTurn call handlers m with
        | (m, none) => MonadStateOf.set m
        | (m, some (.foreign message)) => do
          MonadStateOf.set m
          MonadExcept.throw (report message)
        | (m, some fault) => do
          MonadStateOf.set m
          MonadExcept.throw fault) m := by
  have kept : (callInTurn call handlers m).1.output = m.output :=
    callInTurn_preserves (P := fun u => u.output = m.output)
      (fun h u same => (silent h u).trans same) handlers rfl
  have turned := callInTurn_map (f := fun u => u.behind past) commutes handlers m
  rw [turned]
  rcases called : callInTurn call handlers m with ⟨u, raised⟩
  rw [called] at kept
  have same : u.output = m.output := kept
  have grows : m.output.toList <+: u.output.toList := same ▸ List.prefix_refl _
  rcases raised with _ | fault
  · exact .set grows
  · cases fault with
    | foreign message => exact .bind (.set grows) fun _ _ _ => .throw _
    | source e => exact .bind (.set grows) fun _ _ _ => .throw _
    | runtime e => exact .bind (.set grows) fun _ _ _ => .throw _

end Continues

variable {i : Interpreter} {past m : Machine}

theorem continues_notify (notice : Notice) :
    Continues i past (i.notify notice) (i.accepting.notify notice) m := by
  refine .get (.handlers ?_ ?_ _ _)
  · intro h m
    simp only [Machine.behind, Array.push_append]
  · intro h m
    rfl

theorem continues_applyRules (instruction : Instruction) :
    Continues i past (i.applyRules instruction) (i.accepting.applyRules instruction) m := by
  refine .get (.handlers ?_ ?_ _ _)
  · intro h m
    simp only [Machine.behind, Array.push_append]
  · intro h m
    rfl

theorem continues_declaring {α : Type} (work : Declaring α) :
    Continues i past (declaring work) (declaring work) m := by
  refine .get ?_
  dsimp only [Machine.behind]
  cases work.run m.definitions with
  | ok a definitions => 
    exact .bind (.modify (List.prefix_refl _) rfl) fun _ _ _ => .pure _
  | error e definitions =>
    exact .bind (.modify (List.prefix_refl _) rfl) fun _ _ _ => .throw _

theorem continues_count (f : Counters → Counters) :
    Continues i past (count f) (count f) m :=
  .modify (List.prefix_refl _) rfl

theorem continues_onTape (work : Tape → Except TapeFault Tape) :
    Continues i past (onTape work) (onTape work) m := by
  refine .get ?_
  dsimp only [Machine.behind]
  cases work m.tape with
  | ok tape => exact .modify (List.prefix_refl _) rfl
  | error fault => exact .throw _

theorem continues_bodyOf (name : Text) (args : List Text) :
    Continues i past (i.bodyOf name args) (i.accepting.bodyOf name args) m := by
  refine .get ?_
  dsimp only [Machine.behind]
  cases m.compiled.find? ⟨name, args⟩ with
  | some p => exact .pure _
  | none =>
    dsimp only
    cases (m.definitions.find? name).filter (·.kind = .functionForm) with
    | none => exact .throw _
    | some d =>
      refine .bind (continues_declaring _) fun p u _ => ?_
      exact .bind (.modify (List.prefix_refl _) rfl) fun _ _ _ => .pure _

theorem continues_openFrame (name : Text) (code : Array Instruction)
    (calledFrom : Option Location) :
    Continues i past (openFrame name code calledFrom) (openFrame name code calledFrom) m :=
  .get (.bind (.modify (List.prefix_refl _) rfl) fun _ _ _ => .pure _)

/-- Behind what it has taken, the sink takes the byte that it would take from a new machine. -/
theorem continues_emit (byte : UInt8) :
    Continues i past (i.emit byte) (i.accepting.emit byte) m := by
  have written : (i.accepting.emit byte).run m = .ok () { m with output := m.output.push byte } :=
    rfl
  constructor
  · rw [written]
    exact ⟨[byte], by simp [endState]⟩
  · intro accepts
    rw [written] at accepts
    have taken := accepts m.output byte (List.prefix_refl _)
    rw [emit, EStateM.run_bind, EStateM.run_get]
    simp only [Machine.behind, taken, written, mapState]
    rw [EStateM.run_modify, Array.push_append]

theorem continues_perform (action : Action) :
    Continues i past (i.perform action) (i.accepting.perform action) m := by
  cases action with
  | increment => exact .bind (continues_onTape _) fun _ _ _ => continues_count _
  | decrement => exact .bind (continues_onTape _) fun _ _ _ => continues_count _
  | left => exact .bind (continues_onTape _) fun _ _ _ => continues_count _
  | right => exact .bind (continues_onTape _) fun _ _ _ => continues_count _
  | output => exact .bind (continues_count _) fun _ _ _ => .get (continues_emit _)
  | input =>
    refine .bind (.get ?_) fun given u _ => ?_
    · dsimp only [Machine.behind]
      cases m.input with
      | nil => exact .pure _
      | cons value input => exact .bind (.modify (List.prefix_refl _) rfl) fun _ _ _ => .pure _
    · cases given with
      | none => exact .throw _
      | some value =>
        refine .ite (.bind (.throw _) fun _ _ ended => nomatch ended) ?_
        exact .bind (continues_onTape _) fun _ _ _ => continues_count _

theorem continues_step (cursor : Nat) (instruction : Instruction) :
    Continues i past (i.step cursor instruction) (i.accepting.step cursor instruction) m := by
  unfold step
  cases instruction.op with
  | command c =>
    cases c with
    | act action => exact .bind (continues_perform _) fun _ _ _ => .pure _
    | jump => exact .bind (continues_count _) fun _ _ _ => .get (.pure _)
    | back => exact .bind (continues_count _) fun _ _ _ => .get (.pure _)
  | call target args =>
    refine .get ?_
    refine .ite (.bind (.throw _) fun _ _ ended => nomatch ended) ?_
    refine .bind (continues_bodyOf _ _) fun p u _ => ?_
    exact .bind (continues_openFrame _ _ _) fun _ _ _ => .pure _

theorem continues_located {α : Type} (instruction : Instruction) {x y : Exec α}
    (work : Continues i past x y m) :
    Continues i past (located instruction x) (located instruction y) m := by
  refine .tryCatch work fun fault u _ => ?_
  cases fault with
  | runtime e => exact .get (.throw _)
  | source e => exact .throw _
  | foreign message => exact .throw _

theorem complete_behind (frame : Frame) (rest : List Frame) (instruction : Instruction)
    (effect : Effect) (m : Machine) :
    i.complete frame rest instruction effect (m.behind past) =
      (i.complete frame rest instruction effect m).behind past := by
  by_cases traced : i.setup.traced = true
  · simp only [complete, recordOf, Machine.behind, traced, if_true, Array.push_append]
  · simp only [complete, recordOf, Machine.behind, traced, if_false, Bool.false_eq_true]

theorem continues_advance (frame : Frame) (rest : List Frame) (instruction : Instruction) :
    Continues i past (i.advance frame rest instruction)
      (i.accepting.advance frame rest instruction) m := by
  refine .bind (continues_notify _) fun _ u _ => ?_
  refine .bind (continues_located _ (continues_step _ _)) fun effect v _ => ?_
  refine .bind (.modify (List.prefix_refl _) (complete_behind ..)) fun _ w _ => ?_
  exact .bind (continues_applyRules _) fun _ _ _ => continues_notify _

theorem continues_execute (fuel : Nat) :
    Continues i past (i.execute fuel) (i.accepting.execute fuel) m := by
  induction fuel generalizing m with
  | zero => exact .pure _
  | succ fuel ih =>
    refine .get ?_
    dsimp only [Machine.behind]
    cases m.stack with
    | nil => exact .pure _
    | cons frame rest =>
      dsimp only
      cases frame.code[frame.cursor]? with
      | none => exact .bind (.modify (List.prefix_refl _) rfl) fun _ _ _ => ih
      | some instruction => exact .bind (continues_advance _ _ _) fun _ _ _ => ih

theorem continues_executeProgram (fuel : Nat) (p : Program) :
    Continues i past (i.executeProgram fuel p) (i.accepting.executeProgram fuel p) m := by
  refine .bind (continues_openFrame _ _ _) fun frame u _ => ?_
  exact .bind (.modify (List.prefix_refl _) rfl) fun _ _ _ => continues_execute fuel

theorem continues_parse : Continues i past i.parse i.accepting.parse m := by
  unfold parse
  rw [show i.accepting.tokens = i.tokens from rfl]
  cases i.tokens with
  | error e => exact .throw _
  | ok tokens =>
    refine .bind (continues_declaring _) fun p u _ => ?_
    refine .bind (continues_count _) fun _ v _ => ?_
    exact .bind (continues_notify _) fun _ _ _ => .pure _

theorem continues_reportFailure (fault : Fault) :
    Continues i past (i.reportFailure fault) (i.accepting.reportFailure fault) m := by
  refine .bind (continues_notify _) fun _ u _ => ?_
  cases fault with
  | foreign message => exact .get (.throw _)
  | source e => exact .throw _
  | runtime e => exact .throw _

/-- What a run does once everything is started afresh. -/
theorem continues_run (fuel : Nat) :
    Continues i past (i.run fuel) (i.accepting.run fuel) m := by
  refine .bind (.modify (List.prefix_refl _) rfl) fun _ u _ => ?_
  refine .bind continues_parse fun p v _ => ?_
  refine .bind (continues_notify _) fun _ w _ => ?_
  refine .bind (.tryCatch (continues_executeProgram _ _) fun fault _ _ =>
    continues_reportFailure fault) fun ending _ _ => ?_
  exact .ite (.bind (continues_notify _) fun _ _ _ => .pure _) (.pure _)

/-- Nothing of a machine but its streams and its log outlives the start of a run. -/
theorem reset_start_behind (m : Machine) :
    i.reset ((i.accepting.start m.input).behind m) = i.reset m := by
  simp [reset, start, Machine.behind]

/-- The machine that requests leave, each of which may fail. -/
def after (i : Interpreter) (history : List Request) (m : Machine) : Machine :=
  history.foldl (fun m request => endState ((i.answer request).run m)) m

theorem load_accepting {s : Setup} (loaded : s.load = .ok i) :
    Setup.load { s with refuses := fun _ _ => none } = .ok i.accepting := by
  obtain ⟨rfl, made, read⟩ := Setup.load_eq_ok_iff.mp loaded
  exact Setup.load_eq_ok_iff.mpr ⟨rfl, made, read⟩

theorem run_check (i : Interpreter) (m : Machine) :
    (i.answer .check).run m =
      match i.check with
      | .ok loops => .ok (.checked loops) m
      | .error e => .error (.source e) m := by
  unfold answer
  cases i.check <;> rfl

/-- Whatever was asked of a machine before, and however that ended, a run ends as the run of a new
machine on the input that is left: with the same ending or error, and in the same state, its
output, trace and log added to what was there. A check answers what it answers on a new machine,
and changes nothing. -/
theorem run_after {s : Setup} (loaded : s.load = .ok i) (history : List Request)
    (input : List Int) :
    let m := i.after history (i.start input)
    ∃ fresh, Setup.load { s with refuses := fun _ _ => none } = .ok fresh ∧
      (∀ fuel, Accepts s.refuses m.output
          (endState ((fresh.run fuel).run (fresh.start m.input))).output →
        (i.run fuel).run m =
          mapState (·.behind m) ((fresh.run fuel).run (fresh.start m.input))) ∧
      outcome ((i.answer .check).run m) =
        outcome ((fresh.answer .check).run (fresh.start m.input)) ∧
      endState ((i.answer .check).run m) = m := by
  intro m
  refine ⟨i.accepting, load_accepting loaded, ?_, ?_, ?_⟩
  · intro fuel accepts
    rw [← (Setup.load_eq_ok_iff.mp loaded).1] at accepts
    have anew : Continues i m (i.run fuel) (i.accepting.run fuel) (i.accepting.start m.input) :=
      continues_run fuel
    have same := anew.same accepts
    rw [← same, run, EStateM.run_bind, EStateM.run_bind, EStateM.run_modify, EStateM.run_modify,
      reset_start_behind]
  · rw [run_check, run_check, show i.accepting.check = i.check from rfl]
    cases i.check <;> rfl
  · rw [run_check]
    cases i.check <;> rfl

/-- A machine with a prelude and a handler, whose sink refuses one byte. -/
def choosy : Setup where
  source := "§f(x) = x.\n,f(twice(+))".toList
  file := []
  services :=
    { preludes := [⟨"e".toList, "$twice(x) = x x".toList⟩]
      hooks := Hooks.addHook {} .programStart
        ⟨0, "e".toList, "h".toList, HandlerAction.reaction (.movePointer 2)⟩ }
  refuses := fun _ byte => if byte = 7 then some "no".toList else none

/-- A run, texts that do not parse, are refused by the sink or stop inside of a call, and calls
compiled in between. -/
def mishaps : List Request :=
  [.run 20, .evaluate 20 [] "§g = +\n[".toList, .evaluate 20 [] "++.".toList,
   .evaluate 20 [] "§g = +<<\n<g".toList, .bodyOf "f".toList ["-".toList], .parse, .check]

/-- Behind a run and several failures, a run is one of a new machine. -/
theorem run_after_mishaps : ∃ i m fresh, choosy.load = .ok i ∧
    i.after mishaps (i.start [3, 4]) = m ∧ m.input = [4] ∧ m.output = #[5] ∧
    m.stack.length = 2 ∧ m.compiled.size = 3 ∧
    Setup.load { choosy with refuses := fun _ _ => none } = .ok fresh ∧
    (i.run 20).run m = mapState (·.behind m) ((fresh.run 20).run (fresh.start [4])) := by
  have left : choosy.load.toOption.map (fun i =>
      let m := i.after mishaps (i.start [3, 4])
      (m.input, m.output, m.stack.length, m.compiled.size)) = some ([4], #[5], 2, 3) := by
    decide +kernel
  have written : (Setup.load { choosy with refuses := fun _ _ => none }).toOption.map (fun fresh =>
      (endState ((fresh.run 20).run (fresh.start [4]))).output) = some #[6] := by
    decide +kernel
  cases loaded : choosy.load with
  | error e => rw [loaded] at left; cases left
  | ok i =>
    rw [loaded] at left
    have left := Option.some.inj left
    dsimp only at left
    simp only [Prod.mk.injEq] at left
    obtain ⟨input, output, frames, bodies⟩ := left
    obtain ⟨fresh, made, same, -⟩ := run_after loaded mishaps [3, 4]
    rw [made] at written
    have written := Option.some.inj written
    dsimp only at written
    refine ⟨i, _, fresh, rfl, rfl, input, output, frames, bodies, made, ?_⟩
    rw [input] at same
    apply same
    rw [written]
    intro front b taken
    have six : b ∈ [(6 : UInt8)] := taken.subset (by simp)
    rw [List.mem_singleton.mp six]
    rfl

end Interpreter
end TapeLang
