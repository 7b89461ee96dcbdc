import TapeLang.Proofs.Machine.Accounts

/-! What a run tells its handlers, as long as none of them raises: that its program is read and that
it starts; of each instruction in turn that it is attempted, the step that was completed to the
rules that apply to it, and that it is done; at last that the program has ended, or failed. -/
namespace TapeLang

/-- A rule applies to the steps whose number its period divides, if they are of a kind that it
lists. -/
theorem Rule.applies_eq {β : Type} (rule : Rule β) (step : Nat) (kind : Text) :
    rule.applies step kind =
      (rule.kinds.all (·.contains kind) && decide (rule.period ∣ step)) := by
  have divides : ((step : Int) % (rule.period : Int) == 0) = decide (rule.period ∣ step) := by
    rw [Bool.eq_iff_iff]
    simp only [beq_iff_eq, decide_eq_true_eq]
    omega
  rw [applies, divides]

namespace Attempt

/-- The number of a completed step, and its instruction. -/
def step? : Attempt → Option (Nat × Instruction)
  | completed instruction left => some (left.counters.steps, instruction)
  | refused .. => none

/-- How attempts come to an end: all are completed, or the last is refused and the execution fails
with its fault. -/
inductive Conducted : List Attempt → Except Fault Interpreter.Ending → Prop where
  | well {attempts ending} : (∀ a ∈ attempts, a.isCompleted) → Conducted attempts (.ok ending)
  | failing {attempts instruction fault} : (∀ a ∈ attempts, a.isCompleted) →
      Conducted (attempts ++ [.refused instruction fault]) (.error fault)

theorem Conducted.cons {first : Attempt} {attempts : List Attempt}
    {ended : Except Fault Interpreter.Ending} (completed : first.isCompleted)
    (conducted : Conducted attempts ended) : Conducted (first :: attempts) ended := by
  cases conducted with
  | well others => exact .well (List.forall_mem_cons.mpr ⟨completed, others⟩)
  | failing others => exact .failing (List.forall_mem_cons.mpr ⟨completed, others⟩)

end Attempt

/-- The steps of which a log tells the handlers of a label. -/
def firings (label : Text) (log : List LogEntry) : List Nat :=
  log.filterMap fun
    | .step other context => if other = label then some context.step else none
    | .event .. => none

theorem firings_append (label : Text) (first second : List LogEntry) :
    firings label (first ++ second) = firings label first ++ firings label second :=
  List.filterMap_append

namespace Interpreter

/-- The entries that an attempt leaves in a log. -/
def entries (i : Interpreter) : Attempt → List LogEntry
  | .completed instruction left =>
    i.notices (.beforeInstruction instruction) ++ i.ruleNotices (contextOf left instruction) ++
      i.notices (.afterInstruction instruction)
  | .refused instruction _ => i.notices (.beforeInstruction instruction)

/-- No handler raises around an instruction, as far as they are called. -/
structure CalmAdvance (i : Interpreter) (frame : Frame) (rest : List Frame)
    (instruction : Instruction) (m : Machine) : Prop where
  before : i.Calm (.beforeInstruction instruction) m
  rules : ∀ left, i.attempt frame rest instruction m = some (.completed instruction left) →
    i.CalmRules instruction left
  after : ∀ left u, i.attempt frame rest instruction m = some (.completed instruction left) →
    (i.applyRules instruction).run left = .ok () u → i.Calm (.afterInstruction instruction) u

/-- No handler raises while a machine executes. -/
def CalmTurns (i : Interpreter) (fuel : Nat) (m : Machine) : Prop :=
  ∀ n < fuel, ∀ u, i.Turns n m u → ∀ frame rest instruction, u.stack = frame :: rest →
    frame.code[frame.cursor]? = some instruction → i.CalmAdvance frame rest instruction u

/-- No handler raises in a run. -/
structure CalmRun (i : Interpreter) (fuel : Nat) (m : Machine) : Prop where
  parsed : ∀ p, i.readSetup = .ok p → i.Calm (.programParsed p.size) ((i.reset m).holding p)
  started : ∀ p u, i.parse.run (i.reset m) = .ok p u → i.Calm (.programStart p.size) u
  executed : ∀ start, i.beginning? m (.run fuel) = some start → i.CalmTurns fuel start
  failed : ∀ start fault u, i.beginning? m (.run fuel) = some start →
    (i.execute fuel).run start = .error fault u → i.Calm (.onError fault) u
  finished : ∀ start u, i.beginning? m (.run fuel) = some start →
    (i.execute fuel).run start = .ok .finished u → i.Calm (.programEnd 0) u

variable {i : Interpreter} {m u : Machine} {fuel : Nat}

theorem IsSilent.calmRun (silent : i.IsSilent) (fuel : Nat) (m : Machine) : i.CalmRun fuel m where
  parsed _ _ := silent.calm _ _
  started _ _ _ := silent.calm _ _
  executed _ _ _ _ _ _ _ _ _ _ _ :=
    ⟨silent.calm _ _, fun _ _ => silent.calmRules _ _, fun _ _ _ _ => silent.calm _ _⟩
  failed _ _ _ _ _ := silent.calm _ _
  finished _ _ _ _ := silent.calm _ _

/-- `Went i m attempt ended`: a turn in which no handler raises comes to an attempt, or returns from
a frame. What it tells the handlers is added to the log. -/
inductive Went (i : Interpreter) (m : Machine) :
    Option Attempt → EStateM.Result Fault Machine Unit → Prop where
  | returned {v} : v.log = m.log → v.counters = m.counters → Went i m none (.ok () v)
  | completed {instruction left v} :
      v.log.toList = m.log.toList ++ i.entries (.completed instruction left) →
      left.counters.steps = m.counters.steps + 1 → v.counters = left.counters →
      Went i m (some (.completed instruction left)) (.ok () v)
  | refused {instruction fault v} :
      v.log.toList = m.log.toList ++ i.entries (.refused instruction fault) →
      Went i m (some (.refused instruction fault)) (.error fault v)

theorem CalmAdvance.went {frame : Frame} {rest : List Frame} {instruction : Instruction}
    (calm : i.CalmAdvance frame rest instruction m) :
    i.Went m (i.attempt frame rest instruction m) ((i.advance frame rest instruction).run m) := by
  obtain ⟨u, told, noted⟩ := calm.before.notify
  have advanced := i.advanced m frame rest instruction
  cases attempted : i.attempt frame rest instruction m with
  | none =>
    rw [attempted] at advanced
    generalize (i.advance frame rest instruction).run m = ended at advanced
    cases advanced with
    | kept raised => cases told.symm.trans raised
  | some attempt =>
    rw [attempted] at advanced
    generalize (i.advance frame rest instruction).run m = ended at advanced
    cases advanced with
    | refused first refused =>
      cases told.symm.trans first
      apply Went.refused
      rw [refused.log, noted.log]
      rfl
    | @completed u effect v first stepped =>
      cases told.symm.trans first
      let left := i.complete frame rest instruction effect v
      have steps : left.counters.steps = m.counters.steps + 1 := by
        obtain ⟨_, rfl⟩ := noted
        simp only [left, complete, stepped.counters]
        rfl
      obtain ⟨w, ruled, notedRules⟩ := (calm.rules left attempted).applyRules
      obtain ⟨x, toldAfter, notedAfter⟩ := (calm.after left w attempted ruled).notify
      rw [run_bind_of_ok ruled, toldAfter]
      apply Went.completed _ steps
      · obtain ⟨_, rfl⟩ := notedRules
        obtain ⟨_, rfl⟩ := notedAfter
        rfl
      · have kept : left.log = v.log := rfl
        rw [notedAfter.log, notedRules.log, kept, stepped.log, noted.log]
        simp [entries]

/-- What an execution tells the handlers, where none of them raises. -/
structure Told (i : Interpreter) (m : Machine) (attempts : List Attempt)
    (ended : EStateM.Result Fault Machine Ending) : Prop where
  log : (endState ended).log.toList = m.log.toList ++ attempts.flatMap i.entries
  numbered : (attempts.filterMap Attempt.step?).map Prod.fst =
    List.range' (m.counters.steps + 1) (attempts.countP Attempt.isCompleted)
  conducted : Attempt.Conducted attempts (outcome ended)

theorem Told.here (ending : Ending) (m : Machine) : i.Told m [] (.ok ending m) where
  log := by simp [endState]
  numbered := by simp
  conducted := .well (by simp)

/-- An execution goes on behind a turn. -/
theorem Went.told {attempt : Option Attempt} {attempts : List Attempt}
    {ended : EStateM.Result Fault Machine Ending} (went : i.Went m attempt (.ok () u))
    (told : i.Told u attempts ended) : i.Told m (attempt.toList ++ attempts) ended := by
  obtain ⟨log, numbered, conducted⟩ := told
  cases went with
  | returned same counters =>
    rw [same] at log
    rw [counters] at numbered
    exact ⟨log, numbered, conducted⟩
  | @completed instruction left _ added steps counters =>
    constructor
    · rw [log, added]
      simp
    · rw [counters, steps] at numbered
      simpa [Attempt.step?, countP_cons_eq_toNat, Attempt.isCompleted, steps, Nat.add_comm 1,
        List.range'_succ] using numbered
    · exact conducted.cons rfl

theorem Went.told_last {attempt : Option Attempt} {fault : Fault}
    (went : i.Went m attempt (.error fault u)) : i.Told m attempt.toList (.error fault u) := by
  cases went with
  | @refused instruction _ _ added =>
    constructor
    · simpa [endState] using added
    · rfl
    · exact @Attempt.Conducted.failing [] instruction fault (by simp)

theorem CalmTurns.told (calm : i.CalmTurns fuel m) :
    i.Told m (i.attempts fuel m) ((i.execute fuel).run m) := by
  induction fuel generalizing m with
  | zero => exact .here .outOfFuel m
  | succ fuel ih =>
    unfold attempts
    cases stack : m.stack with
    | nil =>
      rw [run_execute_empty stack]
      exact .here .finished m
    | cons frame rest =>
      have went : i.Went m (i.turnAttempt frame rest m) ((i.turn frame rest).run m) := by
        unfold turnAttempt turn
        cases found : frame.code[frame.cursor]? with
        | none => exact .returned rfl rfl
        | some instruction =>
          exact (calm 0 (Nat.succ_pos fuel) m .nil frame rest instruction stack found).went
      rw [run_execute_succ stack]
      dsimp only
      cases turned : (i.turn frame rest).run m with
      | ok _ u =>
        rw [turned] at went
        rw [run_bind_of_ok turned]
        have turn : i.Turn m u := ⟨frame, rest, stack, turned⟩
        have later : i.CalmTurns fuel u := by
          intro n bound v turns
          exact calm (n + 1) (Nat.succ_lt_succ bound) v (.cons turn turns)
        exact went.told (ih later)
      | error fault u =>
        rw [turned] at went
        rw [run_bind_of_error turned]
        simpa using went.told_last

/-- `Closing i w attempts ended closing`: how a run ends that made some attempts, and the last that
it tells the handlers. -/
inductive Closing (i : Interpreter) (w : World) :
    List Attempt → Except Fault Ending → List LogEntry → Prop where
  | finished {attempts} : (∀ a ∈ attempts, a.isCompleted) →
      Closing i w attempts (.ok .finished) (i.notices (.programEnd 0))
  | outOfFuel {attempts} : (∀ a ∈ attempts, a.isCompleted) →
      Closing i w attempts (.ok .outOfFuel) []
  | failed {attempts instruction fault} : (∀ a ∈ attempts, a.isCompleted) →
      Closing i w (attempts ++ [.refused instruction fault]) (.error (fault.reported w))
        (i.notices (.onError fault))

theorem Told.closes {attempts : List Attempt}
    (told : i.Told m attempts ((i.execute fuel).run m))
    (failed : ∀ fault u, (i.execute fuel).run m = .error fault u → i.Calm (.onError fault) u)
    (finished : ∀ u, (i.execute fuel).run m = .ok .finished u → i.Calm (.programEnd 0) u) :
    let ended := (i.conclude fuel).run m
    ∃ closing, (endState ended).log.toList =
        m.log.toList ++ (attempts.flatMap i.entries ++ closing) ∧
      i.Closing (endState ended).world attempts (outcome ended) closing := by
  intro ended
  obtain ⟨log, -, conducted⟩ := told
  cases executed : (i.execute fuel).run m with
  | ok ending u =>
    have caught : (tryCatch (i.execute fuel) i.reportFailure).run m = .ok ending u := by
      rw [run_tryCatch, executed]
    rw [executed] at log conducted
    cases conducted with
    | well completed =>
      cases ending with
      | outOfFuel =>
        have same : ended = .ok .outOfFuel u := run_bind_of_ok caught _
        rw [same]
        exact ⟨[], by simpa using log, .outOfFuel completed⟩
      | finished =>
        obtain ⟨v, told, noted⟩ := (finished u executed).notify
        have same : ended = .ok .finished v :=
          (run_bind_of_ok caught _).trans (run_bind_of_ok told _)
        rw [same]
        refine ⟨_, ?_, .finished completed⟩
        rw [← List.append_assoc, ← log]
        exact noted.log
  | error fault u =>
    rw [executed] at log conducted
    obtain ⟨v, told, noted⟩ := (failed fault u executed).notify
    have reported : (i.reportFailure fault).run u = .error (fault.reported v.world) v := by
      unfold reportFailure
      rw [run_bind_of_ok told]
      cases fault <;> rfl
    have caught : (tryCatch (i.execute fuel) i.reportFailure).run m =
        .error (fault.reported v.world) v := by
      rw [run_tryCatch, executed]
      exact reported
    have same : ended = .error (fault.reported v.world) v := run_bind_of_error caught _
    rw [same]
    cases conducted with
    | failing completed =>
      refine ⟨_, ?_, .failed completed⟩
      rw [← List.append_assoc, ← log]
      exact noted.log

/-- A run that reads its program tells the handlers so, and that it starts. -/
theorem CalmRun.begins (calm : i.CalmRun fuel m) {p : Program} (read : i.readSetup = .ok p) :
    ∃ start, i.beginning? m (.run fuel) = some start ∧
      (i.run fuel).run m = (i.conclude fuel).run start ∧ start.counters.steps = 0 ∧
      start.log.toList = m.log.toList ++
        (i.notices (.programParsed p.size) ++ i.notices (.programStart p.size)) := by
  obtain ⟨tokens, lexed, made⟩ := exists_parse_of_readSetup read
  obtain ⟨u, told, noted⟩ := (calm.parsed p read).notify
  have parsed := (run_parse_eq_ok_iff (i := i) (m := i.reset m) lexed).mpr ⟨made, told⟩
  obtain ⟨v, toldStart, notedStart⟩ := (calm.started p u parsed).notify
  have ran (fuel : Nat) : (i.run fuel).run m = (i.conclude fuel).run (v.opened p) := by
    rw [run_eq, parsed]
    dsimp only
    rw [toldStart]
  refine ⟨v.opened p, ?_, ran fuel, ?_, ?_⟩
  · rw [beginning?, ran]
    rfl
  · obtain ⟨_, rfl⟩ := noted
    obtain ⟨_, rfl⟩ := notedStart
    rfl
  · have kept : ((i.reset m).holding p).log = m.log := rfl
    have opened : (v.opened p).log = v.log := rfl
    rw [opened, notedStart.log, noted.log, kept, List.append_assoc]

section

variable (label : Text)

theorem firings_notices (notice : Notice) : firings label (i.notices notice) = [] := by
  simp [firings, notices, List.filterMap_map]

variable {label} {rule : Rule RuleHandler}
variable (only : i.setup.services.hooks.rules.filter (·.handler.label = label) = [rule])

include only

/-- Of a step a rule with a label of its own is told exactly if it applies. -/
theorem firings_ruleNotices (context : StepNotice) :
    firings label (i.ruleNotices context) =
      if rule.applies context.step context.kind then [context.step] else [] := by
  have listed : firings label (i.ruleNotices context) =
      ((i.setup.services.hooks.rules.filter (·.handler.label = label)).filter
        (·.applies context.step context.kind)).map fun _ => context.step := by
    rw [List.filter_comm]
    simp only [firings, ruleNotices, Hooks.applicable]
    induction i.setup.services.hooks.rules.filter (·.applies context.step context.kind) with
    | nil => rfl
    | cons first rest ih => by_cases same : first.handler.label = label <;> simp [same, ← ih]
  rw [listed, only]
  cases applies : rule.applies context.step context.kind <;> simp [applies]

theorem firings_entries (attempts : List Attempt) :
    firings label (attempts.flatMap i.entries) =
      ((attempts.filterMap Attempt.step?).filter fun step =>
        rule.applies step.1 step.2.op.kindName).map Prod.fst := by
  induction attempts with
  | nil => rfl
  | cons first rest ih =>
    rw [List.flatMap_cons, firings_append, ih]
    cases first with
    | refused instruction fault =>
      simp [entries, firings_notices, List.filterMap_cons, Attempt.step?]
    | completed instruction left =>
      simp only [entries, firings_append, firings_notices, firings_ruleNotices only,
        List.filterMap_cons, Attempt.step?, List.filter_cons]
      cases applies : rule.applies left.counters.steps instruction.op.kindName <;>
        simp [contextOf, applies]

end

/-- The end of a run is not told to rules. -/
theorem Closing.firings {w : World} {attempts : List Attempt} {ended : Except Fault Ending}
    {closing : List LogEntry} (closes : i.Closing w attempts ended closing) (label : Text) :
    firings label closing = [] := by
  cases closes with
  | finished | failed => exact firings_notices label _
  | outOfFuel => rfl

/-- Where no handler raises, a run tells the handlers nothing if its program cannot be read.
Otherwise it tells them that the program is read and started, then of its attempts in turn, and at
last that the program has ended if it has, or failed at the one attempt that was not completed. The
completed steps are numbered from one on. A rule with a label of its own is told of those whose
number its period divides, among those of the kinds that it lists. -/
theorem run_told (calm : i.CalmRun fuel m) :
    let ended := (i.run fuel).run m
    let u := endState ended
    let attempts := i.attemptsOf (.run fuel) m
    let steps := attempts.filterMap Attempt.step?
    match i.readSetup with
    | .error e => outcome ended = .error (.source e) ∧ u.log = m.log
    | .ok p => ∃ closing,
      let told := i.notices (.programParsed p.size) ++ i.notices (.programStart p.size) ++
        (attempts.flatMap i.entries ++ closing)
      u.log.toList = m.log.toList ++ told ∧
      i.Closing u.world attempts (outcome ended) closing ∧
      steps.map Prod.fst = List.range' 1 u.counters.steps ∧
      ∀ rule, i.setup.services.hooks.rules.filter (·.handler.label = rule.handler.label) = [rule] →
        firings rule.handler.label told =
          match rule.kinds with
          | none => (List.range' 1 u.counters.steps).filter (rule.period ∣ ·)
          | some kinds =>
            (steps.filter fun step =>
              rule.period ∣ step.1 ∧ step.2.op.kindName ∈ kinds).map Prod.fst := by
  intro ended u attempts steps
  cases read : i.readSetup with
  | error e =>
    obtain ⟨left, failed, -⟩ := run_unread read fuel m
    simp only [u, ended, failed]
    exact ⟨rfl, rfl⟩
  | ok p =>
    obtain ⟨start, began, ran, fresh, log⟩ := calm.begins read
    have made : attempts = i.attempts fuel start := by
      simp only [attempts, attemptsOf, began]
      rfl
    have told := (calm.executed start began).told
    have entered := i.books_conclude fuel start
    obtain ⟨closing, added, closes⟩ := told.closes (calm.failed start · · began)
      (calm.finished start · began)
    rw [← ran, ← made] at closes added entered
    have numbers : steps.map Prod.fst = List.range' 1 u.counters.steps := by
      have counted : u.counters.steps = attempts.countP Attempt.isCompleted := by
        simpa [fresh] using entered.steps
      have numbered := told.numbered
      rw [← made, fresh] at numbered
      rw [counted]
      exact numbered
    refine ⟨closing, ?_, closes, numbers, ?_⟩
    · rw [← List.append_assoc, ← log]
      exact added
    · intro rule only
      rw [firings_append, firings_append, firings_append, firings_notices, firings_notices,
        closes.firings, firings_entries only, ← numbers]
      simp only [List.nil_append, List.append_nil, Rule.applies_eq]
      cases rule.kinds with
      | none => simp [List.filter_map, Function.comp_def, steps]
      | some kinds => simp [Bool.and_comm, steps]

/-- Two increments and three decrements, with a handler for each event and two rules: one for every
second step, one for the decrements, which sets the cell to zero. -/
def watched : Interpreter where
  setup :=
    { source := "++---".toList, file := []
      services :=
        { hooks :=
            { byEvent := fun e =>
                [⟨0, "e".toList, e.name.toList, HandlerAction.reaction .nothing⟩]
              rules :=
                [⟨"r".toList, "e".toList, 2, none,
                  "second".toList, HandlerAction.reaction .nothing⟩,
                 ⟨"r".toList, "e".toList, 1, some ["DECR".toList],
                  "zero".toList, HandlerAction.reaction (.setCell 0)⟩] } } }
  blank := oneCell
  base := {}

theorem watched_isSilent : watched.IsSilent := by
  constructor
  · intro event h member notice tape
    obtain rfl := List.mem_singleton.mp member
    rfl
  · intro rule member context tape
    rcases List.mem_pair.mp member with rfl | rfl <;> rfl

/-- Of its three steps the second is told to the first rule and the third, the one decrement that
succeeds, to the other. -/
theorem run_told_watched :
    let ended := (watched.run 9).run (watched.start [])
    let u := endState ended
    let attempts := watched.attemptsOf (.run 9) (watched.start [])
    ∃ closing,
      let told := watched.notices (.programParsed 5) ++ watched.notices (.programStart 5) ++
        (attempts.flatMap watched.entries ++ closing)
      u.log.toList = told ∧ watched.Closing u.world attempts (outcome ended) closing ∧
        u.counters.steps = 3 ∧ firings "second".toList told = [2] ∧
        firings "zero".toList told = [3] := by
  have told := run_told (watched_isSilent.calmRun 9 (watched.start []))
  have size : watched.readSetup.toOption.map (·.size) = some 5 := by decide +kernel
  have steps : (endState ((watched.run 9).run (watched.start []))).counters.steps = 3 := by
    decide +kernel
  have decrements : (((watched.attemptsOf (.run 9) (watched.start [])).filterMap
      Attempt.step?).filter fun step =>
        1 ∣ step.1 ∧ step.2.op.kindName ∈ ["DECR".toList]).map Prod.fst = [3] := by
    decide +kernel
  cases read : watched.readSetup with
  | error e => rw [read] at size; cases size
  | ok p =>
    rw [read] at size told
    obtain ⟨closing, log, closes, -, rules⟩ := told
    have length : p.size = 5 := Option.some.inj size
    rw [length] at log rules
    refine ⟨closing, log, closes, steps, ?_, ?_⟩
    · have second := rules ⟨"r".toList, "e".toList, 2, none, "second".toList, _⟩ rfl
      rw [steps] at second
      exact second
    · have zero := rules ⟨"r".toList, "e".toList, 1, some ["DECR".toList], "zero".toList, _⟩ rfl
      exact zero.trans decrements

end Interpreter
end TapeLang
