import TapeLang.Proofs.Expansion.Reading
import TapeLang.Proofs.Machine.Closure
import TapeLang.Proofs.Machine.Session

/-! What a machine gathers while it works. Definitions and compiled calls are only added,
whether the work ends or fails, and a compiled call has the body that compiling it gave at the
time. Only a fresh start throws them away. -/
namespace TapeLang

open Machine (SameTables)

theorem Dictionary.definitions_of_compile {dictionary left : Dictionary} {limit : Int} {c : Call}
    {p : Program} (compiled : dictionary.compile limit c = .ok p left) : p.definitions = left := by
  obtain ⟨source, tokens, parsed⟩ := exists_parse compiled
  exact Source.definitions_eq parsed

theorem Dictionary.grows_compile {dictionary left : Dictionary} {limit : Int} {c : Call}
    {e : SourceError} (failed : dictionary.compile limit c = .error e left) :
    left.Extends dictionary := by
  unfold compile at failed
  split at failed
  · cases failed
    exact .refl _
  · rename_i d _
    exact (d.grows_compile c.args limit dictionary).of_error failed

/-- Whether a request executes a program. -/
def Request.executes : Request → Bool
  | .evaluate .. | .run _ => true
  | _ => false

namespace Machine

/-- What handlers change of a machine: its tape and its log. -/
def Aside (m m' : Machine) : Prop := ∃ tape log, m' = { m with tape, log }

theorem Aside.trans {m m' m'' : Machine} (first : m.Aside m') (second : m'.Aside m'') :
    m.Aside m'' := by
  obtain ⟨tape, log, rfl⟩ := first
  obtain ⟨tape', log', rfl⟩ := second
  exact ⟨tape', log', rfl⟩

instance : Std.Refl Aside := ⟨fun m => ⟨m.tape, m.log, rfl⟩⟩

instance : IsTrans Machine Aside := ⟨fun _ _ _ => Aside.trans⟩

/-- What compiling a call changes of a machine: its definitions and its compiled calls. -/
def Retabled (m m' : Machine) : Prop := ∃ definitions compiled, m' = { m with definitions, compiled }

end Machine

section

variable {ε σ : Type} {R : σ → σ → Prop} [Std.Refl R] [IsTrans σ R] {fault : SourceError → ε}
variable {compile : Text → List Text → EStateM ε σ Program}

theorem Emission.leads_emitLevel (compiles : ∀ target args s, Leads R (compile target args) s)
    (limit : Int) (deeper : Bool) (calls : List Call) (progress : Progress) (s : σ) :
    Leads R (emitLevel fault compile limit deeper calls progress) s := by
  induction calls generalizing progress s with
  | nil => exact .pure _ _
  | cons c rest ih =>
    apply Leads.bind (compiles _ _ _)
    intro p t _
    cases progress.naming.meetAll limit deeper p with
    | error e => exact .throw _ _
    | ok naming => exact ih _ _

theorem Emission.leads_emitWithin (compiles : ∀ target args s, Leads R (compile target args) s)
    (limit : Int) (budget : Nat) (progress : Progress) (s : σ) :
    Leads R (emitWithin fault compile limit budget progress) s := by
  induction budget generalizing progress s with
  | zero => exact .pure _ _
  | succ budget ih =>
    apply Leads.ite (.pure _ _)
    exact .bind (leads_emitLevel compiles _ _ _ _ _) fun _ t _ => ih _ t

/-- Writing a program in C does to a state what compiling calls does. -/
theorem Program.leads_toC (compiles : ∀ target args s, Leads R (compile target args) s)
    (p : Program) (tapeSize : Nat) (limit : Int) (s : σ) :
    Leads R (p.toC fault compile tapeSize limit) s := by
  unfold toC
  cases Emission.Naming.meetAll limit (0 < limit) {} p with
  | error e => exact .throw _ _
  | ok naming =>
    exact .bind (Emission.leads_emitWithin compiles _ _ _ _) fun _ _ _ => .pure _ _

end

namespace Interpreter

/-- A program is what compiling a call gave, on definitions that a dictionary has grown from. -/
def CompiledBefore (i : Interpreter) (c : Call) (p : Program) (dictionary : Dictionary) : Prop :=
  ∃ before : Dictionary, before.compile i.setup.expansionLimit c = .ok p p.definitions ∧
    dictionary.Extends p.definitions

theorem CompiledBefore.extends {i : Interpreter} {c : Call} {p : Program}
    {dictionary later : Dictionary} (compiled : i.CompiledBefore c p dictionary)
    (extended : later.Extends dictionary) : i.CompiledBefore c p later := by
  obtain ⟨before, gave, grown⟩ := compiled
  exact ⟨before, gave, extended.trans grown⟩

/-- A machine has gathered more. -/
structure Grows (i : Interpreter) (m m' : Machine) : Prop where
  definitions : m'.definitions.Extends m.definitions
  kept : ∀ c p, m.compiled.find? c = some p → m'.compiled.find? c = some p
  added : ∀ c p, m'.compiled.find? c = some p →
    m.compiled.find? c = some p ∨ i.CompiledBefore c p m'.definitions
  size : m.counters.programSize ≤ m'.counters.programSize

/-- A machine has gathered more, in the same frames. -/
structure Learns (i : Interpreter) (m m' : Machine) : Prop extends Grows i m m' where
  stack : m'.stack = m.stack
  frameCount : m.frameCount ≤ m'.frameCount

variable {i : Interpreter} {m m' m'' : Machine}

theorem Grows.of_sameTables (same : SameTables m m')
    (size : m.counters.programSize ≤ m'.counters.programSize) : i.Grows m m' := by
  obtain ⟨definitions, compiled⟩ := same
  constructor
  · rw [definitions]
    exact .refl _
  · intro c p found
    rw [compiled]
    exact found
  · intro c p found
    rw [compiled] at found
    exact .inl found
  · exact size

theorem Grows.trans (first : i.Grows m m') (second : i.Grows m' m'') : i.Grows m m'' := by
  constructor
  · exact second.definitions.trans first.definitions
  · intro c p found
    exact second.kept c p (first.kept c p found)
  · intro c p found
    rcases second.added c p found with earlier | compiled
    · rcases first.added c p earlier with known | compiled
      · exact .inl known
      · exact .inr (compiled.extends second.definitions)
    · exact .inr compiled
  · exact Nat.le_trans first.size second.size

theorem Learns.trans (first : i.Learns m m') (second : i.Learns m' m'') : i.Learns m m'' :=
  ⟨first.toGrows.trans second.toGrows, second.stack.trans first.stack,
    Nat.le_trans first.frameCount second.frameCount⟩

/-- What is not a definition, a compiled call, a frame or the size is not looked at. -/
theorem Learns.of_sameTables (same : SameTables m m')
    (size : m.counters.programSize ≤ m'.counters.programSize) (stack : m'.stack = m.stack)
    (frames : m.frameCount ≤ m'.frameCount) : i.Learns m m' :=
  ⟨.of_sameTables same size, stack, frames⟩

instance : Std.Refl i.Grows := ⟨fun _ => .of_sameTables ⟨rfl, rfl⟩ (Nat.le_refl _)⟩

instance : IsTrans Machine i.Grows := ⟨fun _ _ _ => Grows.trans⟩

instance : Std.Refl i.Learns :=
  ⟨fun _ => .of_sameTables ⟨rfl, rfl⟩ (Nat.le_refl _) rfl (Nat.le_refl _)⟩

instance : IsTrans Machine i.Learns := ⟨fun _ _ _ => Learns.trans⟩

theorem aside_handlers {η : Type} {call : η → Machine → Machine × Option Fault}
    (aside : ∀ h m, Machine.Aside m (call h m).1) (handlers : List η) (report : Text → Fault)
    (m : Machine) :
    Leads Machine.Aside
      (match callInTurn call handlers m with
        | (m, none) => set m
        | (m, some (.foreign message)) => do
          set m
          throw (report message)
        | (m, some fault) => do
          set m
          throw fault : Exec Unit) m := by
  have after : Machine.Aside m (callInTurn call handlers m).1 :=
    callInTurn_preserves (P := Machine.Aside m) (fun h u before => before.trans (aside h u))
      handlers (Std.Refl.refl m)
  rcases called : callInTurn call handlers m with ⟨u, raised⟩
  rw [called] at after
  rcases raised with _ | _ | _ | _ <;> exact after

theorem aside_notify (notice : Notice) (m : Machine) :
    Leads Machine.Aside (i.notify notice) m := by
  apply Leads.get
  apply aside_handlers
  intro h m
  exact ⟨_, _, rfl⟩

theorem aside_applyRules (instruction : Instruction) (m : Machine) :
    Leads Machine.Aside (i.applyRules instruction) m := by
  apply Leads.get
  apply aside_handlers
  intro h m
  exact ⟨_, _, rfl⟩

/-- Behind an instruction its rules and its handlers are called. -/
theorem aside_behind (instruction : Instruction) (m : Machine) :
    Leads Machine.Aside
      (do i.applyRules instruction; i.notify (.afterInstruction instruction) : Exec Unit) m :=
  .bind (aside_applyRules _ _) fun _ _ _ => aside_notify _ _

theorem learns_of_aside (m m' : Machine) (aside : m.Aside m') : i.Learns m m' := by
  obtain ⟨tape, log, rfl⟩ := aside
  exact .of_sameTables ⟨rfl, rfl⟩ (Nat.le_refl _) rfl (Nat.le_refl _)

theorem learns_notify (notice : Notice) (m : Machine) : Leads i.Learns (i.notify notice) m :=
  (aside_notify notice m).mono learns_of_aside

theorem learns_applyRules (instruction : Instruction) (m : Machine) :
    Leads i.Learns (i.applyRules instruction) m :=
  (aside_applyRules instruction m).mono learns_of_aside

theorem learns_count {f : Counters → Counters}
    (grown : ∀ c : Counters, c.programSize ≤ (f c).programSize) (m : Machine) :
    Leads i.Learns (count f) m :=
  .modify (.of_sameTables ⟨rfl, rfl⟩ (grown _) rfl (Nat.le_refl _))

theorem learns_countMove (m : Machine) : Leads i.Learns countMove m :=
  learns_count (by intro c; exact Nat.le_refl _) m

theorem learns_countRead (m : Machine) : Leads i.Learns countRead m :=
  learns_count (by intro c; exact Nat.le_refl _) m

theorem learns_countWrite (m : Machine) : Leads i.Learns countWrite m :=
  learns_count (by intro c; exact Nat.le_refl _) m

theorem learns_onTape (work : Tape → Except TapeFault Tape) (m : Machine) :
    Leads i.Learns (onTape work) m := by
  apply Leads.get
  cases work m.tape with
  | ok tape => exact .modify (.of_sameTables ⟨rfl, rfl⟩ (Nat.le_refl _) rfl (Nat.le_refl _))
  | error fault => exact .throw _ _

theorem learns_nextInput (m : Machine) : Leads i.Learns nextInput m := by
  apply Leads.get
  cases m.input with
  | nil => exact .pure _ _
  | cons value input =>
    refine .bind (.modify ?_) fun _ _ _ => .pure _ _
    exact .of_sameTables ⟨rfl, rfl⟩ (Nat.le_refl _) rfl (Nat.le_refl _)

theorem learns_emit (byte : UInt8) (m : Machine) : Leads i.Learns (i.emit byte) m := by
  apply Leads.get
  cases i.setup.refuses m.output byte with
  | none => exact .modify (.of_sameTables ⟨rfl, rfl⟩ (Nat.le_refl _) rfl (Nat.le_refl _))
  | some message => exact .throw _ _

theorem learns_perform (action : Action) (m : Machine) :
    Leads i.Learns (i.perform action) m := by
  cases action with
  | increment | decrement => exact .bind (learns_onTape _ _) fun _ u _ => learns_countWrite u
  | left | right => exact .bind (learns_onTape _ _) fun _ u _ => learns_countMove u
  | output =>
    apply Leads.bind (learns_countRead m)
    intro _ u _
    exact .get (learns_emit _ _)
  | input =>
    apply Leads.bind (learns_nextInput m)
    intro given u _
    cases given with
    | none => exact .throw _ _
    | some value =>
      apply Leads.ite
      · exact .bind (.throw _ _) fun _ _ ended => nomatch ended
      · exact .bind (learns_onTape _ _) fun _ v _ => learns_countWrite v

theorem learns_declared {left : Dictionary} (extended : left.Extends m.definitions) :
    i.Learns m { m with definitions := left } :=
  ⟨⟨extended, fun _ _ found => found, fun _ _ found => .inl found, Nat.le_refl _⟩, rfl,
    Nat.le_refl _⟩

theorem learns_declaring {α : Type} {work : Declaring α}
    (grows : Leads Dictionary.Grows work m.definitions) : Leads i.Learns (declaring work) m := by
  unfold Leads
  rw [run_declaring]
  cases ran : work.run m.definitions with
  | ok a left => exact learns_declared (grows.of_ok ran)
  | error e left => exact learns_declared (grows.of_error ran)

theorem learns_parse (m : Machine) : Leads i.Learns i.parse m := by
  unfold parse
  cases i.tokens with
  | error e => exact .throw _ _
  | ok tokens =>
    apply Leads.bind (learns_declaring (Source.grows_parse _ _ _))
    intro p u _
    apply Leads.bind (learns_count (by intro c; exact Nat.le_add_right _ _) u)
    intro _ v _
    exact .bind (learns_notify _ _) fun _ _ _ => .pure _ _

/-- A call that is compiled joins the others. -/
theorem learns_compiled {c : Call} {p : Program} {left : Dictionary}
    (unknown : m.compiled.find? c = none)
    (compiled : m.definitions.compile i.setup.expansionLimit c = .ok p left) :
    i.Learns m { m with definitions := left, compiled := m.compiled.insert c p } := by
  have extended := Dictionary.compile_extends compiled
  obtain rfl := Dictionary.definitions_of_compile compiled
  refine ⟨⟨extended, ?_, ?_, Nat.le_refl _⟩, rfl, Nat.le_refl _⟩
  · intro d q found
    rw [CallTable.find?_insert, if_neg]
    · exact found
    · rintro rfl
      cases unknown.symm.trans found
  · intro d q found
    rw [CallTable.find?_insert] at found
    split at found
    · rename_i same
      cases found
      subst same
      exact .inr ⟨m.definitions, compiled, .refl _⟩
    · exact .inl found

theorem learns_bodyOf (target : Text) (args : List Text) (m : Machine) :
    Leads i.Learns (i.bodyOf target args) m := by
  apply Leads.intro
  · intro p u ran
    rcases bodyOf_cases ran with ⟨-, rfl⟩ | ⟨unknown, left, compiled, rfl⟩
    · exact Std.Refl.refl _
    · exact learns_compiled unknown compiled
  · intro fault u ran
    rcases bodyOf_fails ran with ⟨-, rfl, -⟩ | ⟨e, left, compiled, rfl, -⟩
    · exact Std.Refl.refl _
    · exact learns_declared (Dictionary.grows_compile compiled)

theorem retabled_bodyOf (target : Text) (args : List Text) (m : Machine) :
    Leads Machine.Retabled (i.bodyOf target args) m := by
  apply Leads.intro
  · intro p u ran
    rcases bodyOf_cases ran with ⟨-, rfl⟩ | ⟨-, left, -, rfl⟩ <;> exact ⟨_, _, rfl⟩
  · intro fault u ran
    rcases bodyOf_fails ran with ⟨-, rfl, -⟩ | ⟨e, left, -, rfl, -⟩ <;> exact ⟨_, _, rfl⟩

/-- A body that is given is compiled from then on. -/
theorem find?_of_bodyOf {target : Text} {args : List Text} {p : Program}
    (ran : (i.bodyOf target args).run m = .ok p m') :
    m'.compiled.find? ⟨target, args⟩ = some p := by
  rcases bodyOf_cases ran with ⟨found, rfl⟩ | ⟨-, left, -, rfl⟩
  · exact found
  · rw [CallTable.find?_insert, if_pos rfl]

theorem learns_openFrame (name : Text) (code : Array Instruction)
    (calledFrom : Option Location) (m : Machine) :
    Leads i.Learns (openFrame name code calledFrom) m := by
  apply Leads.get
  refine .bind (.modify ?_) fun _ _ _ => .pure _ _
  exact .of_sameTables ⟨rfl, rfl⟩ (Nat.le_refl _) rfl (Nat.le_succ _)

theorem Stepped.learns {cursor : Nat} {instruction : Instruction} {effect : Effect}
    (stepped : i.Stepped m cursor instruction effect m') : i.Learns m m' := by
  cases stepped with
  | @act action w _ acted =>
    have ran := run_perform i action m
    rw [acted] at ran
    exact (i.learns_perform action m).of_ok ran
  | jump | back => exact .of_sameTables ⟨rfl, rfl⟩ (Nat.le_refl _) rfl (Nat.le_refl _)
  | @call target args p v _ _ ran =>
    have learnt := (i.learns_bodyOf target args m).of_ok ran
    exact learnt.trans (.of_sameTables ⟨rfl, rfl⟩ (Nat.le_refl _) rfl (Nat.le_succ _))

theorem Refused.learns {instruction : Instruction} {fault : Fault}
    (refused : i.Refused m instruction fault m') : i.Learns m m' := by
  cases refused with
  | @act action _ w _ acted =>
    have ran := run_perform i action m
    rw [acted] at ran
    exact (i.learns_perform action m).of_error ran
  | depth => exact Std.Refl.refl _
  | @body target args _ _ _ _ ran =>
    exact (i.learns_bodyOf target args m).of_error ran

theorem Grows.of_learns (m m' : Machine) (learns : i.Learns m m') : i.Grows m m' :=
  learns.toGrows

theorem learns_step (cursor : Nat) (instruction : Instruction) (m : Machine) :
    Leads i.Learns (i.step cursor instruction) m := by
  apply Leads.intro
  · intro effect u ran
    exact (stepped_of_step ran).learns
  · intro fault u ran
    exact (refused_of_step ran).learns

theorem learns_located {α : Type} (instruction : Instruction) {work : Exec α}
    (learns : Leads i.Learns work m) : Leads i.Learns (located instruction work) m := by
  apply Leads.tryCatch learns
  intro fault u _
  cases fault with
  | runtime e => exact .get (.throw _ _)
  | source e => exact .throw _ _
  | foreign message => exact .throw _ _

theorem grows_advance (frame : Frame) (rest : List Frame) (instruction : Instruction)
    (m : Machine) : Leads i.Grows (i.advance frame rest instruction) m := by
  apply Leads.bind ((learns_notify _ _).mono .of_learns)
  intro _ u _
  apply Leads.bind ((learns_located instruction (learns_step _ _ _)).mono .of_learns)
  intro effect v _
  apply Leads.bind (.modify (.of_sameTables ⟨rfl, rfl⟩ (Nat.le_refl _)))
  intro _ w _
  apply Leads.bind ((learns_applyRules _ _).mono .of_learns)
  intro _ x _
  exact (learns_notify _ _).mono .of_learns

theorem grows_execute (fuel : Nat) (m : Machine) : Leads i.Grows (i.execute fuel) m := by
  induction fuel generalizing m with
  | zero => exact .pure _ _
  | succ fuel ih =>
    apply Leads.get
    dsimp only
    cases m.stack with
    | nil => exact .pure _ _
    | cons frame rest =>
      dsimp only
      cases frame.code[frame.cursor]? with
      | none =>
        exact .bind (.modify (.of_sameTables ⟨rfl, rfl⟩ (Nat.le_refl _))) fun _ u _ => ih u
      | some instruction => exact .bind (grows_advance _ _ _ _) fun _ u _ => ih u

theorem grows_executeProgram (fuel : Nat) (p : Program) (m : Machine) :
    Leads i.Grows (i.executeProgram fuel p) m := by
  apply Leads.bind ((learns_openFrame _ _ _ _).mono .of_learns)
  intro frame u _
  apply Leads.bind (.modify (.of_sameTables ⟨rfl, rfl⟩ (Nat.le_refl _)))
  intro _ v _
  exact grows_execute fuel v

theorem grows_evaluate (fuel : Nat) (file text : Text) (m : Machine) :
    Leads i.Grows (i.evaluate fuel file text) m := by
  unfold evaluate
  cases tokenize file text with
  | error e => exact .throw _ _
  | ok tokens =>
    apply Leads.get
    cases parsed : ((i.sourceOf file text).parse tokens).run m.definitions with
    | error e left => exact .throw _ _
    | ok p left =>
      have grown := (Source.grows_parse _ tokens m.definitions).of_ok parsed
      apply Leads.bind (.modify (learns_declared grown).toGrows)
      intro _ u _
      apply Leads.bind ((learns_count (by intro c; exact Nat.le_add_right _ _) u).mono .of_learns)
      intro _ v _
      apply Leads.bind ((learns_notify _ v).mono .of_learns)
      intro _ w _
      apply Leads.bind (.modify (.of_sameTables ⟨rfl, rfl⟩ (Nat.le_refl _)))
      intro _ x _
      exact .bind (grows_executeProgram fuel p x) fun _ _ _ => .pure _ _

/-- A failure is told to the handlers, and that is all that reporting it does. -/
theorem leads_reportFailure {R : Machine → Machine → Prop} [Std.Refl R] [IsTrans Machine R]
    (notified : ∀ notice m, Leads R (i.notify notice) m) (fault : Fault) (m : Machine) :
    Leads R (i.reportFailure fault) m := by
  apply Leads.bind (notified _ m)
  intro _ u _
  cases fault with
  | foreign message => exact .get (.throw _ _)
  | source e => exact .throw _ _
  | runtime e => exact .throw _ _

/-- A run starts from nothing and gathers. -/
theorem grows_run (fuel : Nat) (m : Machine) :
    i.Grows (i.reset m) (endState ((i.run fuel).run m)) := by
  rw [run, EStateM.run_bind, EStateM.run_modify]
  apply Leads.bind ((learns_parse _).mono .of_learns)
  intro p u _
  apply Leads.bind ((learns_notify _ u).mono .of_learns)
  intro _ v _
  apply Leads.bind
  · apply Leads.tryCatch (grows_executeProgram fuel p v)
    intro fault w _
    exact (leads_reportFailure learns_notify fault w).mono .of_learns
  · intro ending w _
    apply Leads.ite
    · exact .bind ((learns_notify _ w).mono .of_learns) fun _ _ _ => .pure _ _
    · exact .pure _ _

/-- A request that neither executes a program nor starts afresh only gathers. -/
theorem learns_answer {request : Request} (passive : request.executes = false)
    (kept : request ≠ .reset) (m : Machine) : Leads i.Learns (i.answer request) m := by
  cases request with
  | evaluate | run => cases passive
  | reset => exact absurd rfl kept
  | parse | shortForm => exact .bind (learns_parse m) fun _ _ _ => .pure _ _
  | bodyOf name args => exact .bind (learns_bodyOf _ _ m) fun _ _ _ => .pure _ _
  | check =>
    unfold answer
    cases i.check with
    | ok loops => exact .pure _ _
    | error e => exact .throw _ _
  | toC limit =>
    apply Leads.bind (learns_parse m)
    intro p u _
    exact .bind (Program.leads_toC learns_bodyOf p _ _ u) fun _ _ _ => .pure _ _

/-- A request adds to what was gathered before, or starts from nothing. -/
theorem grows_answer (request : Request) (m : Machine) :
    Leads i.Grows (i.answer request) m ∨
      i.Grows (i.reset m) (endState ((i.answer request).run m)) := by
  cases request with
  | evaluate fuel file text => exact .inl (.bind (grows_evaluate _ _ _ _) fun _ _ _ => .pure _ _)
  | run fuel =>
    right
    have same : endState ((i.answer (.run fuel)).run m) = endState ((i.run fuel).run m) :=
      endState_bind_pure _ _ _
    rw [same]
    exact grows_run fuel m
  | reset => exact .inr (Std.Refl.refl _)
  | parse | check | bodyOf | shortForm | toC =>
    exact .inl ((learns_answer rfl Request.noConfusion m).mono .of_learns)

/-- Every compiled call has a body that compiling it gave. -/
def Cached (i : Interpreter) (m : Machine) : Prop :=
  ∀ c p, m.compiled.find? c = some p → i.CompiledBefore c p m.definitions

theorem Cached.grows (cached : i.Cached m) (grows : i.Grows m m') : i.Cached m' := by
  intro c p found
  rcases grows.added c p found with earlier | compiled
  · exact (cached c p earlier).extends grows.definitions
  · exact compiled

theorem cached_reset (m : Machine) : i.Cached (i.reset m) := by
  intro c p found
  cases found

theorem Cached.answer (cached : i.Cached m) (request : Request) :
    i.Cached (endState ((i.answer request).run m)) := by
  rcases i.grows_answer request m with grows | grows
  · exact cached.grows grows
  · exact (cached_reset m).grows grows

theorem cached_after (i : Interpreter) (history : List Request) (input : List Int) :
    i.Cached (i.after history (i.start input)) := by
  have kept (m : Machine) (cached : i.Cached m) : i.Cached (i.after history m) := by
    induction history generalizing m with
    | nil => exact cached
    | cons request rest ih => exact ih _ (cached.answer request)
  exact kept _ (cached_reset (i.start input))

end Interpreter
end TapeLang
