import TapeLang.Proofs.Extension.Hook
import TapeLang.Proofs.Machine.Accounts
import TapeLang.Proofs.Machine.Enduring

/-! How a run ends whatever its handlers, its rules and its sink raise. Handlers are called up to
the first that raises, and what is not an error of the program is turned into one where it is
raised: of the hook by an event, of the rule by a step, and of the machine itself if it comes from
the sink. The first error within an execution ends it. It is told to the handlers of errors, and
passed on unless one of them raises an error of its own. -/
namespace TapeLang

namespace Fault

/-- What a handler of an event raises, as it is passed on. -/
def ofHook (event : Event) : Fault → Fault :=
  reportedBy fun message => .runtime
    { fault := .hookFailed event.name.toList message, rule := some "EXT".toList }

/-- What a rule raises behind an instruction, as it is passed on. -/
def ofRule (instruction : Instruction) : Fault → Fault :=
  reportedBy fun message => .runtime
    { fault := .ruleFailed message, location := instruction.location, rule := some "EXT".toList }

def isForeign : Fault → Bool
  | foreign _ => true
  | source _ | runtime _ => false

theorem isForeign_ofHook (event : Event) (fault : Fault) :
    (fault.ofHook event).isForeign = false := by
  cases fault <;> rfl

theorem isForeign_reported (fault : Fault) (w : World) : (fault.reported w).isForeign = false := by
  cases fault <;> rfl

end Fault

namespace LogEntry

/-- Whether an entry tells of an instruction: that it is attempted or done, or the step. -/
def isOfTurn : LogEntry → Bool
  | step .. | event _ (.beforeInstruction _) | event _ (.afterInstruction _) => true
  | event .. => false

end LogEntry

/-- No action but an output fails from outside of the program, and it does if the sink refuses the
byte. -/
theorem World.act_foreign {refuses : Array UInt8 → UInt8 → Option Text} {w u : World}
    {action : Action} {message : Text}
    (failed : w.act refuses action = .error (.foreign message) u) :
    action = .output ∧ refuses w.output w.tape.get = some message ∧ u = w.read := by
  have tape {v : World} {count : Counters → Counters} {worked : Except TapeFault Tape} :
      v.takeTape count worked ≠ .error (.foreign message) u := by
    cases worked <;> nofun
  cases action with
  | increment | decrement | left | right =>
    rw [act] at failed
    exact absurd failed tape
  | output =>
    rw [act] at failed
    cases answer : refuses w.output w.tape.get with
    | none => rw [answer] at failed; cases failed
    | some reason =>
      rw [answer] at failed
      cases failed
      exact ⟨rfl, rfl, rfl⟩
  | input =>
    rw [act] at failed
    cases given : w.input with
    | nil => rw [given] at failed; cases failed
    | cons value input =>
      rw [given] at failed
      dsimp only at failed
      split at failed
      · cases failed
      · exact absurd failed tape

namespace Handler

variable {ν : Type}

theorem emits_heard (seen : ν) (handlers : List (Handler ν)) (tape : Tape) :
    Emits (fun h tape => h.react seen tape) handlers tape (heard seen handlers tape)
      (reactInTurn seen handlers tape) := by
  induction handlers generalizing tape with
  | nil => exact .whole .nil
  | cons h rest ih =>
    rw [heard, reactInTurn, callInTurn]
    rcases reacted : h.react seen tape with ⟨next, _ | fault⟩
    · exact (ih next).cons reacted
    · exact .upTo (List.nil_append _).symm .nil reacted

/-- `Calls entry seen handlers m told raised u`: handlers are called in turn with what they see, all
of them or up to the first that raises, and each call is logged. They change the tape at most. -/
def Calls (entry : Text → ν → LogEntry) (seen : ν) (handlers : List (Handler ν)) (m : Machine)
    (told : List LogEntry) (raised : Option Fault) (u : Machine) : Prop :=
  ∃ called tape,
    Emits (fun h tape => h.react seen tape) handlers m.tape called (tape, raised) ∧
    told = called.map (fun h => entry h.label seen) ∧
    u = { m with tape, log := m.log ++ told.toArray }

variable {entry : Text → ν → LogEntry} {seen : ν} {handlers : List (Handler ν)}

/-- What calling handlers comes to, as it is reported. -/
theorem calls_cases {work : Exec Unit} {report : Fault → Fault} {m : Machine}
    (ran : work.run m =
      match (reactInTurn seen handlers m.tape).2 with
      | none => .ok () (Interpreter.heard entry seen handlers m)
      | some fault => .error (report fault) (Interpreter.heard entry seen handlers m)) :
    (∃ told u, work.run m = .ok () u ∧ Calls entry seen handlers m told none u) ∨
    ∃ told fault u, work.run m = .error (report fault) u ∧
      Calls entry seen handlers m told (some fault) u := by
  have calls : Calls entry seen handlers m
      ((heard seen handlers m.tape).map fun h => entry h.label seen)
      (reactInTurn seen handlers m.tape).2 (Interpreter.heard entry seen handlers m) :=
    ⟨_, _, emits_heard seen handlers m.tape, rfl, rfl⟩
  cases raised : (reactInTurn seen handlers m.tape).2 with
  | none =>
    rw [raised] at ran calls
    exact .inl ⟨_, _, ran, calls⟩
  | some fault =>
    rw [raised] at ran calls
    exact .inr ⟨_, fault, _, ran, calls⟩

theorem Calls.log {m u : Machine} {told : List LogEntry} {raised : Option Fault}
    (calls : Calls entry seen handlers m told raised u) : u.log.toList = m.log.toList ++ told := by
  obtain ⟨_, _, -, -, rfl⟩ := calls
  simp

theorem Calls.forall_told {P : LogEntry → Prop} {m u : Machine} {told : List LogEntry}
    {raised : Option Fault} (calls : Calls entry seen handlers m told raised u)
    (holds : ∀ label, P (entry label seen)) : ∀ e ∈ told, P e := by
  obtain ⟨_, _, -, rfl, -⟩ := calls
  simp [holds]

end Handler

namespace Interpreter

variable {i : Interpreter}

/-- The handlers of an event are called. -/
def Tells (i : Interpreter) (notice : Notice) (m : Machine) : List LogEntry → Option Fault →
    Machine → Prop :=
  Handler.Calls .event notice (i.setup.services.hooks.handlers notice.event) m

/-- The rules that apply to a completed step are called. -/
def Applies (i : Interpreter) (instruction : Instruction) (m : Machine) : List LogEntry →
    Option Fault → Machine → Prop :=
  let context := contextOf m instruction
  Handler.Calls .step context (i.setup.services.hooks.applicable context.step context.kind) m

theorem notify_cases (i : Interpreter) (notice : Notice) (m : Machine) :
    (∃ told u, (i.notify notice).run m = .ok () u ∧ i.Tells notice m told none u) ∨
    ∃ told fault u, (i.notify notice).run m = .error (fault.ofHook notice.event) u ∧
      i.Tells notice m told (some fault) u :=
  Handler.calls_cases (i.run_notify notice m)

theorem applyRules_cases (i : Interpreter) (instruction : Instruction) (m : Machine) :
    (∃ told u, (i.applyRules instruction).run m = .ok () u ∧
      i.Applies instruction m told none u) ∨
    ∃ told fault u, (i.applyRules instruction).run m = .error (fault.ofRule instruction) u ∧
      i.Applies instruction m told (some fault) u :=
  Handler.calls_cases (i.run_applyRules instruction m)

/-- `Breaks i frame rest instruction m attempt told fault u`: an execution breaks off at an
instruction. A handler raises before it, it fails itself or the sink refuses its byte, or it is
carried out and a rule or a handler raises behind it. -/
inductive Breaks (i : Interpreter) (frame : Frame) (rest : List Frame) (instruction : Instruction)
    (m : Machine) : Option Attempt → List LogEntry → Fault → Machine → Prop where
  | before {told fault u} :
      i.Tells (.beforeInstruction instruction) m told (some fault) u →
      Breaks i frame rest instruction m none told (fault.ofHook .beforeInstruction) u
  | unread {told u e v} :
      i.Tells (.beforeInstruction instruction) m told none u →
      i.Refused u instruction (.source e) v →
      Breaks i frame rest instruction m (some (.refused instruction (.source e))) told
        (.source e) v
  | refused {told u e v} :
      i.Tells (.beforeInstruction instruction) m told none u →
      i.Refused u instruction (.runtime e) v →
      Breaks i frame rest instruction m
        (some (.refused instruction (.runtime (e.annotate instruction v.counters.steps)))) told
        (.runtime (e.annotate instruction v.counters.steps)) v
  | sink {told u message} :
      i.Tells (.beforeInstruction instruction) m told none u →
      instruction.op = .command (.act .output) →
      i.setup.refuses u.output u.tape.get = some message →
      Breaks i frame rest instruction m (some (.refused instruction (.foreign message))) told
        (.foreign message) (u.setWorld u.world.read)
  | rule {told u effect v applied fault w} :
      i.Tells (.beforeInstruction instruction) m told none u →
      i.Stepped u frame.cursor instruction effect v →
      i.Applies instruction (i.complete frame rest instruction effect v) applied (some fault) w →
      Breaks i frame rest instruction m
        (some (.completed instruction (i.complete frame rest instruction effect v)))
        (told ++ applied) (fault.ofRule instruction) w
  | after {told u effect v applied w behind fault x} :
      i.Tells (.beforeInstruction instruction) m told none u →
      i.Stepped u frame.cursor instruction effect v →
      i.Applies instruction (i.complete frame rest instruction effect v) applied none w →
      i.Tells (.afterInstruction instruction) w behind (some fault) x →
      Breaks i frame rest instruction m
        (some (.completed instruction (i.complete frame rest instruction effect v)))
        (told ++ applied ++ behind) (fault.ofHook .afterInstruction) x

/-- `Goes i frame rest instruction m attempt told u`: an instruction is carried out, and nothing
is raised before or behind it. -/
inductive Goes (i : Interpreter) (frame : Frame) (rest : List Frame) (instruction : Instruction)
    (m : Machine) : Attempt → List LogEntry → Machine → Prop where
  | intro {told u effect v applied w behind x} :
      i.Tells (.beforeInstruction instruction) m told none u →
      i.Stepped u frame.cursor instruction effect v →
      i.Applies instruction (i.complete frame rest instruction effect v) applied none w →
      i.Tells (.afterInstruction instruction) w behind none x →
      Goes i frame rest instruction m
        (.completed instruction (i.complete frame rest instruction effect v))
        (told ++ applied ++ behind) x

/-- `Proceeds i fuel m attempts told ended`: an execution is told to the handlers turn by turn, and
ends at the first turn that fails. -/
inductive Proceeds (i : Interpreter) : Nat → Machine → List Attempt → List LogEntry →
    EStateM.Result Fault Machine Ending → Prop where
  | outOfFuel {m : Machine} : Proceeds i 0 m [] [] (.ok .outOfFuel m)
  | finished {fuel : Nat} {m : Machine} :
      m.stack = [] → Proceeds i (fuel + 1) m [] [] (.ok .finished m)
  | returns {fuel : Nat} {m : Machine} {frame rest attempts told ended} :
      m.stack = frame :: rest → frame.code[frame.cursor]? = none →
      Proceeds i fuel { m with stack := rest } attempts told ended →
      Proceeds i (fuel + 1) m attempts told ended
  | goes {fuel : Nat} {m u : Machine} {frame rest instruction attempt told attempts later ended} :
      m.stack = frame :: rest → frame.code[frame.cursor]? = some instruction →
      i.Goes frame rest instruction m attempt told u →
      Proceeds i fuel u attempts later ended →
      Proceeds i (fuel + 1) m (attempt :: attempts) (told ++ later) ended
  | breaks {fuel : Nat} {m u : Machine} {frame rest instruction attempt told fault} :
      m.stack = frame :: rest → frame.code[frame.cursor]? = some instruction →
      i.Breaks frame rest instruction m attempt told fault u →
      Proceeds i (fuel + 1) m attempt.toList told (.error fault u)

/-- `Concludes i executed told ended`: what a run makes of the end of its execution. An error is
passed on, a foreign one as an internal error, or the one that a handler raises who is told of it.
That the program has ended is told only if it has. -/
inductive Concludes (i : Interpreter) : EStateM.Result Fault Machine Ending → List LogEntry →
    EStateM.Result Fault Machine Ending → Prop where
  | outOfFuel {u} : Concludes i (.ok .outOfFuel u) [] (.ok .outOfFuel u)
  | finished {u told v} :
      i.Tells (.programEnd 0) u told none v →
      Concludes i (.ok .finished u) told (.ok .finished v)
  | endRaises {u told fault v} :
      i.Tells (.programEnd 0) u told (some fault) v →
      Concludes i (.ok .finished u) told (.error (fault.ofHook .programEnd) v)
  | failed {fault u told v} :
      i.Tells (.onError fault) u told none v →
      Concludes i (.error fault u) told (.error (fault.reported v.world) v)
  | replaced {fault u told other v} :
      i.Tells (.onError fault) u told (some other) v →
      Concludes i (.error fault u) told (.error (other.ofHook .onError) v)

/-- `RunEnds i fuel m attempts told ended`: a run cannot read its program, or a handler raises who
is told that it is read or started; else the program is executed. -/
inductive RunEnds (i : Interpreter) (fuel : Nat) (m : Machine) : List Attempt → List LogEntry →
    EStateM.Result Fault Machine Ending → Prop where
  | unread {e left} :
      i.readSetup = .error e →
      RunEnds i fuel m [] [] (.error (.source e) { i.reset m with definitions := left })
  | parsedRaises {p told fault u} :
      i.readSetup = .ok p →
      i.Tells (.programParsed p.size) ((i.reset m).holding p) told (some fault) u →
      RunEnds i fuel m [] told (.error (fault.ofHook .programParsed) u)
  | startRaises {p told u started fault v} :
      i.readSetup = .ok p →
      i.Tells (.programParsed p.size) ((i.reset m).holding p) told none u →
      i.Tells (.programStart p.size) u started (some fault) v →
      RunEnds i fuel m [] (told ++ started) (.error (fault.ofHook .programStart) v)
  | executed {p told u started v attempts within behind ended} :
      i.readSetup = .ok p →
      i.Tells (.programParsed p.size) ((i.reset m).holding p) told none u →
      i.Tells (.programStart p.size) u started none v →
      i.beginning? m (.run fuel) = some (v.opened p) →
      i.Proceeds fuel (v.opened p) attempts within ((i.execute fuel).run (v.opened p)) →
      i.Concludes ((i.execute fuel).run (v.opened p)) behind ended →
      RunEnds i fuel m attempts (told ++ started ++ (within ++ behind)) ended

variable {m u v : Machine} {told : List LogEntry} {fuel : Nat}
variable {frame : Frame} {rest : List Frame} {instruction : Instruction} {fault : Fault}

/-- What a refused instruction fails with comes from outside of the program only if it is an output
whose byte the sink refuses. -/
theorem Refused.breaks (before : i.Tells (.beforeInstruction instruction) m told none u)
    (refused : i.Refused u instruction fault v) :
    i.Breaks frame rest instruction m
      (some (.refused instruction (fault.placed instruction.op instruction.location v.world))) told
      (fault.placed instruction.op instruction.location v.world) v := by
  cases fault with
  | source e => exact .unread before refused
  | runtime e => exact .refused before refused
  | foreign message =>
    cases refused with
    | act op acted =>
      obtain ⟨rfl, refuses, rfl⟩ := World.act_foreign acted
      exact .sink before op refuses
    | body _ _ ran => rcases bodyOf_fails ran with ⟨-, -, ⟨⟩⟩ | ⟨_, _, -, -, ⟨⟩⟩

theorem Advanced.goes_or_breaks {attempt : Option Attempt}
    {ended : EStateM.Result Fault Machine Unit}
    (advanced : i.Advanced m frame rest instruction attempt ended) :
    (∃ done told u, attempt = some done ∧ ended = .ok () u ∧
      i.Goes frame rest instruction m done told u) ∨
    ∃ told fault u, ended = .error fault u ∧
      i.Breaks frame rest instruction m attempt told fault u := by
  have tells {u : Machine} (ran : (i.notify (.beforeInstruction instruction)).run m = .ok () u) :
      ∃ told, i.Tells (.beforeInstruction instruction) m told none u := by
    rcases i.notify_cases (.beforeInstruction instruction) m with
      ⟨told, _, same, tells⟩ | ⟨_, _, _, raised, -⟩
    · cases ran.symm.trans same
      exact ⟨told, tells⟩
    · cases ran.symm.trans raised
  cases advanced with
  | kept ran =>
    rcases i.notify_cases (.beforeInstruction instruction) m with
      ⟨_, _, calm, -⟩ | ⟨told, fault, _, raised, tells⟩
    · cases ran.symm.trans calm
    · cases ran.symm.trans raised
      exact .inr ⟨told, _, _, rfl, .before tells⟩
  | refused ran refused =>
    obtain ⟨told, before⟩ := tells ran
    exact .inr ⟨told, _, _, rfl, refused.breaks before⟩
  | @completed u effect v ran stepped =>
    obtain ⟨told, before⟩ := tells ran
    let left := i.complete frame rest instruction effect v
    rcases i.applyRules_cases instruction left with
      ⟨applied, w, calm, applies⟩ | ⟨applied, fault, w, raised, applies⟩
    · rcases i.notify_cases (.afterInstruction instruction) w with
        ⟨behind, x, calmAfter, after⟩ | ⟨behind, fault, x, raised, after⟩
      · exact .inl ⟨_, _, x, rfl, (run_bind_of_ok calm _).trans calmAfter,
          .intro before stepped applies after⟩
      · exact .inr ⟨_, _, x, (run_bind_of_ok calm _).trans raised,
          .after before stepped applies after⟩
    · exact .inr ⟨_, _, w, run_bind_of_error raised _, .rule before stepped applies⟩

/-- The induction follows the turns. -/
theorem proceeds (i : Interpreter) (fuel : Nat) (m : Machine) :
    ∃ told, i.Proceeds fuel m (i.attempts fuel m) told ((i.execute fuel).run m) := by
  induction fuel generalizing m with
  | zero => exact ⟨[], .outOfFuel⟩
  | succ fuel ih =>
    unfold attempts
    cases stack : m.stack with
    | nil =>
      rw [run_execute_empty stack]
      exact ⟨[], .finished stack⟩
    | cons frame rest =>
      rw [run_execute_succ stack]
      dsimp only
      unfold turnAttempt turn
      cases found : frame.code[frame.cursor]? with
      | none =>
        obtain ⟨told, later⟩ := ih { m with stack := rest }
        exact ⟨told, .returns stack found later⟩
      | some instruction =>
        dsimp only [Option.bind]
        have advanced := i.advanced m frame rest instruction
        rcases advanced.goes_or_breaks with
          ⟨done, told, u, attempted, ran, goes⟩ | ⟨told, fault, u, ran, breaks⟩
        · obtain ⟨later, proceeds⟩ := ih u
          rw [attempted, run_bind_of_ok ran, ran]
          exact ⟨_, .goes stack found goes proceeds⟩
        · rw [run_bind_of_error ran, ran]
          dsimp only
          rw [List.append_nil]
          exact ⟨told, .breaks stack found breaks⟩

theorem concludes (i : Interpreter) (fuel : Nat) (start : Machine) :
    ∃ told, i.Concludes ((i.execute fuel).run start) told ((i.conclude fuel).run start) := by
  have caught := run_tryCatch (i.execute fuel) i.reportFailure start
  cases executed : (i.execute fuel).run start with
  | ok ending u =>
    rw [executed] at caught
    rw [conclude, run_bind_of_ok caught]
    cases ending with
    | outOfFuel => exact ⟨[], .outOfFuel⟩
    | finished =>
      rcases i.notify_cases (.programEnd 0) u with
        ⟨told, v, calm, tells⟩ | ⟨told, fault, v, raised, tells⟩
      · exact ⟨told, (run_bind_of_ok calm _).symm ▸ .finished tells⟩
      · exact ⟨told, (run_bind_of_error raised _).symm ▸ .endRaises tells⟩
  | error fault u =>
    rw [executed] at caught
    dsimp only at caught
    rcases i.notify_cases (.onError fault) u with
      ⟨told, v, calm, tells⟩ | ⟨told, other, v, raised, tells⟩
    · have reported : (i.reportFailure fault).run u = .error (fault.reported v.world) v := by
        unfold reportFailure
        rw [run_bind_of_ok calm]
        cases fault <;> rfl
      rw [conclude, run_bind_of_error (caught.trans reported)]
      exact ⟨told, .failed tells⟩
    · have replaced : (i.reportFailure fault).run u = .error (other.ofHook .onError) v := by
        unfold reportFailure
        exact run_bind_of_error raised _
      rw [conclude, run_bind_of_error (caught.trans replaced)]
      exact ⟨told, .replaced tells⟩

/-- A program that can be read is told to the handlers. -/
theorem run_parse_of_read {p : Program} (read : i.readSetup = .ok p) (m : Machine) :
    i.parse.run (i.reset m) =
      match (i.notify (.programParsed p.size)).run ((i.reset m).holding p) with
      | .ok _ u => .ok p u
      | .error fault u => .error fault u := by
  obtain ⟨tokens, lexed, parsed⟩ := exists_parse_of_readSetup read
  have declared := run_declaring (i.source.parse tokens) (i.reset m)
  rw [show (i.source.parse tokens).run (i.reset m).definitions = .ok p p.definitions from parsed]
    at declared
  unfold parse
  rw [lexed]
  dsimp only
  rw [run_bind_of_ok declared, addSize, count, EStateM.run_bind, EStateM.run_modify]
  change (i.notify (.programParsed p.size) >>= fun _ => pure p).run ((i.reset m).holding p) = _
  cases told : (i.notify (.programParsed p.size)).run ((i.reset m).holding p) with
  | ok _ u => exact run_bind_of_ok told _
  | error fault u => exact run_bind_of_error told _

/-- How a run ends, and what it attempts and tells until then. -/
theorem runEnds (i : Interpreter) (fuel : Nat) (m : Machine) :
    ∃ told, i.RunEnds fuel m (i.attemptsOf (.run fuel) m) told ((i.run fuel).run m) := by
  have nothing {fault : Fault} {u : Machine} (failed : (i.run 0).run m = .error fault u) :
      i.attemptsOf (.run fuel) m = [] := by
    rw [attemptsOf, beginning?, failed]
  cases read : i.readSetup with
  | error e =>
    -- whether a run attempts anything shows without fuel
    obtain ⟨left, failed, -⟩ := run_unread read fuel m
    obtain ⟨_, begun, -⟩ := run_unread read 0 m
    rw [nothing begun, failed]
    exact ⟨_, .unread read⟩
  | ok p =>
    have parsed := run_parse_of_read read m
    rcases i.notify_cases (.programParsed p.size) ((i.reset m).holding p) with
      ⟨told, u, calm, tells⟩ | ⟨told, fault, u, raised, tells⟩
    · rw [calm] at parsed
      rcases i.notify_cases (.programStart p.size) u with
        ⟨started, v, calmStart, tellsStart⟩ | ⟨started, fault, v, raised, tellsStart⟩
      · have ran (fuel : Nat) : (i.run fuel).run m = (i.conclude fuel).run (v.opened p) := by
          rw [run_eq, parsed]
          dsimp only
          rw [calmStart]
        have began : i.beginning? m (.run fuel) = some (v.opened p) :=
          beginning?_run.mpr ⟨p, u, v, parsed, calmStart, rfl⟩
        obtain ⟨within, proceeds⟩ := i.proceeds fuel (v.opened p)
        obtain ⟨behind, concludes⟩ := i.concludes fuel (v.opened p)
        rw [ran, attemptsOf, began]
        exact ⟨_, .executed read tells tellsStart began proceeds concludes⟩
      · have failed (fuel : Nat) :
            (i.run fuel).run m = .error (fault.ofHook .programStart) v := by
          rw [run_eq, parsed]
          dsimp only
          rw [raised]
          rfl
        rw [nothing (failed 0), failed]
        exact ⟨_, .startRaises read tells tellsStart⟩
    · have failed (fuel : Nat) : (i.run fuel).run m = .error (fault.ofHook .programParsed) u := by
        rw [raised] at parsed
        rw [run_eq, parsed]
        rfl
      rw [nothing (failed 0), failed]
      exact ⟨_, .parsedRaises read tells⟩

/-- Entries that a log has gained, all of them of turns. -/
def Gains (m : Machine) (told : List LogEntry) (u : Machine) : Prop :=
  u.log.toList = m.log.toList ++ told ∧ ∀ entry ∈ told, entry.isOfTurn = true

theorem Gains.append {later : List LogEntry} (first : Gains m told u) (second : Gains u later v) :
    Gains m (told ++ later) v :=
  ⟨by rw [second.1, first.1, List.append_assoc],
    List.forall_mem_append.mpr ⟨first.2, second.2⟩⟩

theorem Gains.of_log (gains : Gains m told u) (same : v.log = u.log) : Gains m told v :=
  ⟨same ▸ gains.1, gains.2⟩

theorem Tells.gains {notice : Notice} {raised : Option Fault}
    (tells : i.Tells notice m told raised u)
    (ofTurn : ∀ label, (LogEntry.event label notice).isOfTurn = true) : Gains m told u :=
  ⟨tells.log, tells.forall_told ofTurn⟩

theorem Applies.gains {raised : Option Fault} (applies : i.Applies instruction m told raised u) :
    Gains m told u :=
  ⟨Handler.Calls.log applies, Handler.Calls.forall_told applies fun _ => rfl⟩

/-- Up to the rules of a step only what is told before it is logged. -/
theorem Stepped.gains {effect : Effect} (stepped : i.Stepped u frame.cursor instruction effect v)
    (before : i.Tells (.beforeInstruction instruction) m told none u) :
    Gains m told (i.complete frame rest instruction effect v) :=
  (before.gains fun _ => rfl).of_log stepped.log

theorem Goes.gains {attempt : Attempt} (goes : i.Goes frame rest instruction m attempt told u) :
    Gains m told u := by
  cases goes with
  | intro before stepped applies after =>
    exact ((stepped.gains before).append applies.gains).append (after.gains fun _ => rfl)

theorem Breaks.gains {attempt : Option Attempt}
    (breaks : i.Breaks frame rest instruction m attempt told fault u) : Gains m told u := by
  cases breaks with
  | before raised => exact raised.gains fun _ => rfl
  | unread before refused | refused before refused =>
    exact (before.gains fun _ => rfl).of_log refused.log
  | sink before => exact (before.gains fun _ => rfl).of_log rfl
  | rule before stepped raised => exact (stepped.gains before).append raised.gains
  | after before stepped applies raised =>
    exact ((stepped.gains before).append applies.gains).append (raised.gains fun _ => rfl)

theorem Proceeds.gains {attempts : List Attempt} {ended : EStateM.Result Fault Machine Ending}
    (proceeds : i.Proceeds fuel m attempts told ended) : Gains m told (endState ended) := by
  induction proceeds with
  | outOfFuel | finished => exact ⟨(List.append_nil _).symm, nofun⟩
  | returns _ _ _ ih => exact ih
  | goes _ _ goes _ ih => exact goes.gains.append ih
  | breaks _ _ breaks => exact breaks.gains

theorem Concludes.log {executed ended : EStateM.Result Fault Machine Ending}
    (concludes : i.Concludes executed told ended) :
    (endState ended).log.toList = (endState executed).log.toList ++ told := by
  cases concludes with
  | outOfFuel => exact (List.append_nil _).symm
  | finished tells | endRaises tells | failed tells | replaced tells => exact tells.log

theorem Concludes.isForeign {executed : EStateM.Result Fault Machine Ending}
    (concludes : i.Concludes executed told (.error fault u)) : fault.isForeign = false := by
  cases concludes with
  | endRaises | replaced => exact Fault.isForeign_ofHook _ _
  | failed => exact Fault.isForeign_reported _ _

namespace RunEnds

variable {attempts : List Attempt} {ended : EStateM.Result Fault Machine Ending}

theorem log (ends : i.RunEnds fuel m attempts told ended) :
    (endState ended).log.toList = m.log.toList ++ told := by
  have held (p : Program) : ((i.reset m).holding p).log = m.log := rfl
  cases ends with
  | unread => exact (List.append_nil _).symm
  | parsedRaises _ tells => exact tells.log
  | startRaises _ tells tellsStart =>
    refine tellsStart.log.trans ?_
    rw [tells.log, held, List.append_assoc]
  | @executed p _ _ _ v _ _ _ _ _ tells tellsStart _ proceeds concludes =>
    have opened : (v.opened p).log = v.log := rfl
    rw [concludes.log, proceeds.gains.1, opened, tellsStart.log, tells.log, held]
    simp only [List.append_assoc]

/-- An error that a run raises is one of the program. -/
theorem isForeign (ends : i.RunEnds fuel m attempts told (.error fault u)) :
    fault.isForeign = false := by
  cases ends with
  | unread => rfl
  | parsedRaises | startRaises => exact Fault.isForeign_ofHook _ _
  | executed _ _ _ _ _ concludes => exact concludes.isForeign

end RunEnds

example :
    failure? ((fullSink.run 9).run (fullSink.start [])) =
      some (.runtime
        { fault := .internal "full".toList, rule := some "internal".toList, step := some 0 }) := by
  decide +kernel

end Interpreter
end TapeLang
