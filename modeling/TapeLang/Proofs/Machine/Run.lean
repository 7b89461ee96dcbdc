import TapeLang.Proofs.Machine.Simulation

/-! A run of the machine is the structured run of its program: it ends exactly when that one
does, well or with the same error, and leaves the same world. -/
namespace TapeLang

/-- A fault as a run passes it on: what came from outside of the program is an internal error. -/
def Fault.reported (fault : Fault) (w : World) : Fault :=
  match fault with
  | .foreign message =>
    .runtime { fault := .internal message, rule := some "internal".toList
               step := some w.counters.steps }
  | fault => fault

namespace Interpreter

variable {i : Interpreter} {dictionary : Dictionary} {m m' : Machine} {n k : Nat}
variable {tokens : List Token} {p : Program}

/-- More fuel than enough changes nothing. -/
theorem run_execute_add (halts : i.Halts n m) (k : Nat) :
    (i.execute (n + k)).run m = (i.execute n).run m := by
  induction n generalizing m with
  | zero => exact absurd rfl (halts m)
  | succ n ih =>
    rw [Nat.add_right_comm]
    cases stack : m.stack with
    | nil => rw [run_execute_empty stack, run_execute_empty stack]
    | cons frame rest =>
      cases turned : (i.turn frame rest).run m with
      | error fault u =>
        have fails : i.Fails m fault u := ⟨frame, rest, stack, turned⟩
        rw [fails.run_execute, fails.run_execute]
      | ok ended u =>
        have next : i.Halts n u := by
          intro m'
          have same := halts m'
          rw [run_execute_succ stack, run_bind_of_ok turned] at same
          exact same
        rw [run_execute_succ stack, run_execute_succ stack, run_bind_of_ok turned,
          run_bind_of_ok turned, ih next]

theorem run_execute_unique (first : i.Halts n m) (second : i.Halts k m) :
    (i.execute n).run m = (i.execute k).run m := by
  rw [← run_execute_add first k, Nat.add_comm, run_execute_add second]

/-- How an execution ends. -/
def Ends (i : Interpreter) (m : Machine) : RunResult → Prop
  | .ok () u => ∃ fuel m', (i.execute fuel).run m = .ok .finished m' ∧ m'.world = u
  | .error fault u => ∃ fuel m', (i.execute fuel).run m = .error fault m' ∧ m'.world = u

theorem halts_of_finished (ended : (i.execute n).run m = .ok .finished m') : i.Halts n m := by
  intro u out
  cases ended.symm.trans out

theorem halts_of_error {fault : Fault} (ended : (i.execute n).run m = .error fault m') :
    i.Halts n m := by
  intro u out
  cases ended.symm.trans out

theorem Ends.halts {result : RunResult} (ends : i.Ends m result) : ∃ n, i.Halts n m := by
  cases result with
  | ok ended u =>
    obtain ⟨n, m', ended, -⟩ := ends
    exact ⟨n, halts_of_finished ended⟩
  | error fault u =>
    obtain ⟨n, m', ended, -⟩ := ends
    exact ⟨n, halts_of_error ended⟩

theorem Ends.unique {first second : RunResult} (one : i.Ends m first) (other : i.Ends m second) :
    first = second := by
  cases first with
  | ok ended u =>
    obtain ⟨n, m₁, first, rfl⟩ := one
    cases second with
    | ok ended' v =>
      obtain ⟨k, m₂, second, rfl⟩ := other
      have same := run_execute_unique (halts_of_finished first) (halts_of_finished second)
      cases first.symm.trans (same.trans second)
      rfl
    | error fault v =>
      obtain ⟨k, m₂, second, rfl⟩ := other
      have same := run_execute_unique (halts_of_finished first) (halts_of_error second)
      cases first.symm.trans (same.trans second)
  | error fault u =>
    obtain ⟨n, m₁, first, rfl⟩ := one
    cases second with
    | ok ended' v =>
      obtain ⟨k, m₂, second, rfl⟩ := other
      have same := run_execute_unique (halts_of_error first) (halts_of_finished second)
      cases first.symm.trans (same.trans second)
    | error fault v =>
      obtain ⟨k, m₂, second, rfl⟩ := other
      have same := run_execute_unique (halts_of_error first) (halts_of_error second)
      cases first.symm.trans (same.trans second)
      rfl

/-- An execution that starts a program above no other frame ends as its structured run. -/
theorem ends_iff_runs (bare : i.IsBare) {block : List Statement} {code : Array Instruction}
    {w : World} (here : Machine.At m code 0 [] w) (laid : Laid code 0 block code.size)
    (calls : CallsFunctions dictionary code) (steady : i.Steady dictionary m)
    (result : RunResult) : i.Ends m result ↔ Runs i dictionary 1 block w result := by
  have ends_of_runs {result : RunResult} (runs : Runs i dictionary 1 block w result) :
      i.Ends m result := by
    have follows := follows_of_runs bare runs here laid calls steady rfl
    cases result with
    | ok ended u =>
      obtain ⟨n, m₁, turns, atEnd, -⟩ := follows
      obtain ⟨m₂, back, -, empty, world⟩ := turn_return atEnd (by simp)
      refine ⟨n + 1 + 1, m₂, ?_, world⟩
      rw [(turns.trans (.cons back .nil)).run_execute, run_execute_empty empty]
    | error fault u =>
      obtain ⟨n, m₁, m₂, turns, fails, world⟩ := follows
      refine ⟨n + 1, m₂, ?_, world⟩
      rw [turns.run_execute, ← Nat.zero_add 1, fails.run_execute]
  constructor
  · intro ends
    obtain ⟨n, halts⟩ := ends.halts
    obtain ⟨other, runs⟩ := exists_runs_of_halts bare here laid calls steady halts
    rw [ends.unique (ends_of_runs runs)]
    exact runs
  · exact ends_of_runs

/-- The machine on which the program of a run is executed. -/
def started (i : Interpreter) (m : Machine) (p : Program) : Machine :=
  { i.reset m with
    definitions := p.definitions, counters := { programSize := p.size }, frameCount := 1
    stack := [{ name := "<top-level>".toList, code := p.instructions, number := 0
                calledFrom := none }] }

/-- The world that the program of a run starts on. -/
def startWorld (i : Interpreter) (m : Machine) (p : Program) : World :=
  ⟨i.blank, m.input, m.output, { programSize := p.size }⟩

theorem IsBare.run_reportFailure (bare : i.IsBare) (fault : Fault) (m : Machine) :
    (i.reportFailure fault).run m = .error (fault.reported m.world) m := by
  unfold reportFailure
  rw [run_bind_of_ok (bare.run_notify _ _)]
  cases fault <;> rfl

/-- Parsing reads the program of the set-up on the definitions at hand, and counts its size. -/
theorem IsBare.run_parse (bare : i.IsBare) (lexed : i.tokens = .ok tokens) (m : Machine) :
    i.parse.run m =
      match (i.source.parse tokens).run m.definitions with
      | .ok p definitions =>
        .ok p
          { m with
            definitions
            counters := { m.counters with programSize := m.counters.programSize + p.size } }
      | .error e definitions => .error (.source e) { m with definitions } := by
  unfold parse
  rw [lexed]
  dsimp only
  have declared := run_declaring (i.source.parse tokens) m
  cases parsed : (i.source.parse tokens).run m.definitions with
  | error e left =>
    rw [parsed] at declared
    rw [run_bind_of_error declared]
  | ok p left =>
    rw [parsed] at declared
    rw [run_bind_of_ok declared, addSize, count, EStateM.run_bind, EStateM.run_modify]
    dsimp only
    rw [run_bind_of_ok (bare.run_notify _ _)]
    rfl

/-- A run executes the program of the set-up and reports its failure. -/
theorem IsBare.run_run (bare : i.IsBare) (lexed : i.tokens = .ok tokens)
    (parsed : (i.source.parse tokens).run i.base = .ok p dictionary) (fuel : Nat) (m : Machine) :
    (i.run fuel).run m =
      match (i.execute fuel).run (i.started m p) with
      | .ok ending u => .ok ending u
      | .error fault u => .error (fault.reported u.world) u := by
  have same := Source.definitions_eq parsed
  subst same
  have read : i.parse.run (i.reset m) = .ok p
      { i.reset m with definitions := p.definitions, counters := { programSize := p.size } } := by
    rw [bare.run_parse lexed, show (i.reset m).definitions = i.base from rfl, parsed]
    simp [reset]
  have executed : (i.executeProgram fuel p).run
      { i.reset m with definitions := p.definitions, counters := { programSize := p.size } } =
        (i.execute fuel).run (i.started m p) := by
    rw [executeProgram, openFrame, EStateM.run_bind, EStateM.run_bind, EStateM.run_get]
    rfl
  rw [run, EStateM.run_bind, EStateM.run_modify]
  dsimp only
  rw [run_bind_of_ok read, run_bind_of_ok (bare.run_notify _ _), EStateM.run_bind, run_tryCatch,
    executed]
  cases (i.execute fuel).run (i.started m p) with
  | ok ending u =>
    dsimp only
    split
    · rw [run_bind_of_ok (bare.run_notify _ _)]
      rfl
    · rfl
  | error fault u =>
    dsimp only
    rw [bare.run_reportFailure]

/-- A run finishes as the execution of its program does. -/
theorem IsBare.run_finished_iff_ends (bare : i.IsBare) (lexed : i.tokens = .ok tokens)
    (parsed : (i.source.parse tokens).run i.base = .ok p dictionary) (u : World) :
    (∃ fuel m', (i.run fuel).run m = .ok .finished m' ∧ m'.world = u) ↔
      i.Ends (i.started m p) (.ok () u) := by
  constructor
  · rintro ⟨fuel, m', ended, left⟩
    rw [bare.run_run lexed parsed] at ended
    cases executed : (i.execute fuel).run (i.started m p) with
    | error fault v => rw [executed] at ended; cases ended
    | ok ending v =>
      rw [executed] at ended
      cases ended
      exact ⟨fuel, _, executed, left⟩
  · rintro ⟨fuel, m', ended, left⟩
    refine ⟨fuel, m', ?_, left⟩
    rw [bare.run_run lexed parsed, ended]

/-- A run fails as the execution of its program does, and reports the failure. -/
theorem IsBare.run_fails_iff_ends (bare : i.IsBare) (lexed : i.tokens = .ok tokens)
    (parsed : (i.source.parse tokens).run i.base = .ok p dictionary) (u : World)
    (fault : Fault) :
    (∃ fuel m', (i.run fuel).run m = .error fault m' ∧ m'.world = u) ↔
      ∃ raised, fault = raised.reported u ∧ i.Ends (i.started m p) (.error raised u) := by
  constructor
  · rintro ⟨fuel, m', ended, left⟩
    rw [bare.run_run lexed parsed] at ended
    cases executed : (i.execute fuel).run (i.started m p) with
    | ok ending v => rw [executed] at ended; cases ended
    | error raised v =>
      rw [executed] at ended
      cases ended
      exact ⟨raised, by rw [left], fuel, _, executed, left⟩
  · rintro ⟨raised, rfl, fuel, m', ended, left⟩
    refine ⟨fuel, m', ?_, left⟩
    rw [bare.run_run lexed parsed, ended]
    dsimp only
    rw [left]

/-- The execution of the program of a run ends as its structured run. -/
theorem ends_started_iff_runs (bare : i.IsBare)
    (parsed : (i.source.parse tokens).run i.base = .ok p dictionary)
    (steady : i.Steady dictionary (i.started m p)) (result : RunResult) :
    i.Ends (i.started m p) result ↔
      Runs i dictionary 1 p.block (i.startWorld m p) result := by
  have here : Machine.At (i.started m p) p.instructions 0 [] (i.startWorld m p) :=
    ⟨⟨_, rfl, rfl, rfl⟩, rfl⟩
  exact ends_iff_runs bare here (Source.laid_block parsed) (callsFunctions_of_parse parsed)
    steady result

/-- Whatever the sink and the streams do, a run and the structured run of its program end alike.
Bodies reached while the machine runs declare nothing. -/
theorem run_iff_runs (bare : i.IsBare) (lexed : i.tokens = .ok tokens)
    (parsed : (i.source.parse tokens).run i.base = .ok p dictionary)
    (quiet : ∀ fuel ending m', (i.run fuel).run m = .ok ending m' →
      m'.definitions = dictionary) (u : World) :
    ((∃ fuel m', (i.run fuel).run m = .ok .finished m' ∧ m'.world = u) ↔
      Runs i dictionary 1 p.block (i.startWorld m p) (.ok () u)) ∧
    ∀ fault, (∃ fuel m', (i.run fuel).run m = .error fault m' ∧ m'.world = u) ↔
      ∃ raised, fault = raised.reported u ∧
        Runs i dictionary 1 p.block (i.startWorld m p) (.error raised u) := by
  have steady : i.Steady dictionary (i.started m p) := by
    refine ⟨?_, Source.definitions_eq parsed, nofun⟩
    intro n m' turns
    apply quiet n .outOfFuel m'
    rw [bare.run_run lexed parsed, ← Nat.add_zero n, turns.run_execute]
    rfl
  have ends := ends_started_iff_runs bare parsed steady
  constructor
  · rw [bare.run_finished_iff_ends lexed parsed, ends]
  · intro fault
    rw [bare.run_fails_iff_ends lexed parsed]
    simp only [ends]

/-- A run that is quiet until it ends is quiet. -/
theorem quiet_of_finished (bare : i.IsBare) (lexed : i.tokens = .ok tokens)
    (parsed : (i.source.parse tokens).run i.base = .ok p dictionary)
    (ended : (i.run n).run m = .ok .finished m')
    (quiet : ∀ fuel ≤ n, ∀ ending u, (i.run fuel).run m = .ok ending u →
      u.definitions = dictionary) (fuel : Nat) (ending : Ending) (u : Machine)
    (ran : (i.run fuel).run m = .ok ending u) : u.definitions = dictionary := by
  by_cases early : fuel ≤ n
  · exact quiet fuel early ending u ran
  · obtain ⟨k, rfl⟩ := Nat.exists_eq_add_of_le (Nat.le_of_not_le early)
    have halts : i.Halts n (i.started m p) := by
      intro v out
      rw [bare.run_run lexed parsed, out] at ended
      cases ended
    rw [bare.run_run lexed parsed, run_execute_add halts, ← bare.run_run lexed parsed] at ran
    exact quiet n (Nat.le_refl n) ending u ran

/-- The smallest tape. -/
def oneCell : Tape where
  size := 1
  visited := #[0]
  pointer := 0
  pointer_lt := Nat.zero_lt_one
  visited_le := Nat.le_refl 1

/-- Two passes through a loop that calls a function. -/
def twoPasses : Interpreter :=
  ⟨{ source := "§f(x) = x-\n++[f(.)]".toList, file := [] }, oneCell, {}⟩

/-- How its run ends within some fuel, on no input. -/
def twoPassesRun (fuel : Nat) : EStateM.Result Fault Machine Ending :=
  (twoPasses.run fuel).run (twoPasses.start [])

theorem twoPasses_bare : twoPasses.IsBare := ⟨fun _ => rfl, rfl⟩

/-- The structured run of two passes writes two bytes in twelve steps: two increments, and for
each pass both brackets, the call and the two actions of its body. -/
theorem runs_twoPasses :
    ∃ tokens p dictionary u, twoPasses.tokens = .ok tokens ∧
      (twoPasses.source.parse tokens).run twoPasses.base = .ok p dictionary ∧
      u.output = #[2, 1] ∧ u.counters.steps = 12 ∧
      Runs twoPasses dictionary 1 p.block (twoPasses.startWorld (twoPasses.start []) p)
        (.ok () u) := by
  have evaluated : ((twoPasses.tokens.toOption.bind fun tokens =>
      (outcome ((twoPasses.source.parse tokens).run twoPasses.base)).toOption).map fun p =>
        (List.range 17).all fun fuel =>
          decide ((endState (twoPassesRun fuel)).definitions = p.definitions)) = some true := by
    decide +kernel
  have finished : ((outcome (twoPassesRun 16)).toOption, (endState (twoPassesRun 16)).output,
      (endState (twoPassesRun 16)).counters.steps) = (some .finished, #[2, 1], 12) := by
    decide +kernel
  cases lexed : twoPasses.tokens with
  | error e => rw [lexed] at evaluated; cases evaluated
  | ok tokens =>
    rw [lexed] at evaluated
    cases parsed : (twoPasses.source.parse tokens).run twoPasses.base with
    | error e left => simp [Except.toOption, parsed, outcome] at evaluated
    | ok p dictionary =>
      have declared := Source.definitions_eq parsed
      simp only [Except.toOption, Option.bind_some, parsed, outcome, Option.map_some,
        Option.some.injEq, List.all_eq_true, List.mem_range, decide_eq_true_eq, declared]
        at evaluated
      cases ended : twoPassesRun 16 with
      | error fault u => simp [ended, outcome, Except.toOption] at finished
      | ok ending u =>
        simp only [ended, outcome, Except.toOption, endState, Prod.mk.injEq, Option.some.injEq]
          at finished
        obtain ⟨rfl, output, steps⟩ := finished
        have quiet := quiet_of_finished twoPasses_bare lexed parsed ended fun fuel early => by
          intro ending v ran
          have kept := evaluated fuel (by omega)
          rw [twoPassesRun, ran] at kept
          exact kept
        have answers := run_iff_runs twoPasses_bare lexed parsed quiet u.world
        exact ⟨tokens, p, dictionary, u.world, rfl, parsed, output, steps,
          answers.1.mp ⟨16, u, ended, rfl⟩⟩

end Interpreter
end TapeLang
