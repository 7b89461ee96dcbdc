import TapeLang.Proofs.Inlining.Runs
import TapeLang.Proofs.Machine.Counts

/-! Functions are deferred macros. A text that declares first and holds no sigil in its bodies
and call arguments runs as it would with every function declared as a macro, if its calls
compile: the machine makes calls where the other text was expanded, and that is all that the
step count and the limit of nested calls tell. -/
namespace TapeLang

namespace Inlined

variable {i : Interpreter} {dictionary : Dictionary} {limit : Int} {ops flat : List Operation}

/-- Nothing is called where everything is inlined. -/
theorem filterMap_call? (inlined : Inlined dictionary limit ops flat) :
    flat.filterMap Operation.call? = [] := by
  induction inlined with
  | nil => rfl
  | command _ ih => exact ih
  | call _ _ _ ihBody ihRest => rw [List.filterMap_append, ihBody, ihRest, List.append_nil]

/-- The calls that are inlined are finitely many, those inside of their bodies included. -/
theorem exists_closed (inlined : Inlined dictionary i.setup.expansionLimit ops flat) :
    ∃ calls, i.Closed dictionary calls ∧ ops.filterMap Operation.call? ⊆ calls := by
  induction inlined with
  | nil => exact ⟨[], fun c member => (List.not_mem_nil member).elim, List.Subset.refl _⟩
  | command _ ih => exact ih
  | @call target args _ p _ _ compiled _ _ ihBody ihRest =>
    obtain ⟨inside, closedInside, body⟩ := ihBody
    obtain ⟨others, closedOthers, rest⟩ := ihRest
    have inAll : inside ⊆ ⟨target, args⟩ :: (inside ++ others) :=
      List.Subset.trans (List.subset_append_left _ _) (List.subset_cons_self _ _)
    have othersInAll : others ⊆ ⟨target, args⟩ :: (inside ++ others) :=
      List.Subset.trans (List.subset_append_right _ _) (List.subset_cons_self _ _)
    refine ⟨⟨target, args⟩ :: (inside ++ others), ?_,
      List.cons_subset_cons _ (List.Subset.trans rest (List.subset_append_right _ _))⟩
    intro c member
    rcases List.mem_cons.mp member with rfl | member
    · exact ⟨p, compiled, List.Subset.trans body inAll⟩
    · rcases List.mem_append.mp member with member | member
      · obtain ⟨q, compiled, calls⟩ := closedInside c member
        exact ⟨q, compiled, List.Subset.trans calls inAll⟩
      · obtain ⟨q, compiled, calls⟩ := closedOthers c member
        exact ⟨q, compiled, List.Subset.trans calls othersInAll⟩

end Inlined

theorem Fault.cause_reported {f g : Fault} (same : f.cause = g.cause) (w w' : World) :
    (f.reported w).cause = (g.reported w').cause := by
  have only (fault : Fault) (u : World) :
      (fault.reported u).cause = (fault.cause.reported w).cause := by
    cases fault <;> rfl
  rw [only f, only g, same]

theorem Fault.accesses_of_cause {f g : Fault} (same : f.cause = g.cause) :
    f.accesses = g.accesses := by
  have only (fault : Fault) : fault.accesses = fault.cause.accesses := by
    cases fault <;> rfl
  rw [only f, only g, same]

namespace Interpreter

variable {i : Interpreter} {m : Machine} {fuel : Nat}

/-- The interpreter of the same text with macros in place of functions. -/
def asMacros (i : Interpreter) : Interpreter :=
  { i with setup := { i.setup with source := Text.asMacros i.setup.source } }

/-- Whether every call that the tokens of an interpreter lead to compiles. -/
def CallsCompile (i : Interpreter) (tokens : List Token) : Prop :=
  ∀ items dictionary, (i.source.items tokens).run i.base = .ok items dictionary →
    ∀ c ∈ items.filterMap Item.call?, dictionary.Compiles i.setup.expansionLimit c

/-- How a run with calls and the run of the inlined text end: both well, or both with the same
cause, after the same effects, the first one with so many steps more. -/
inductive EndsInlined (calls : Nat) :
    EStateM.Result Fault Machine Ending → EStateM.Result Fault Machine Ending → Prop where
  | finished {u v : Machine} :
      u.world.effects = v.world.effects → u.counters.steps = v.counters.steps + calls →
      EndsInlined calls (.ok .finished u) (.ok .finished v)
  | failed {f g : Fault} {u v : Machine} :
      f.cause = g.cause → u.world.effects = v.world.effects →
      u.counters.steps = v.counters.steps + calls →
      EndsInlined calls (.error f u) (.error g v)

/-- The end of an execution as the end of a structured run. -/
def worldEnd : EStateM.Result Fault Machine Ending → RunResult
  | .ok _ u => .ok () u.world
  | .error fault u => .error fault u.world

theorem Halts.ends (halts : i.Halts fuel m) : i.Ends m (worldEnd ((i.execute fuel).run m)) := by
  cases executed : (i.execute fuel).run m with
  | error fault u => exact ⟨fuel, u, executed, rfl⟩
  | ok ending u =>
    cases ending with
    | finished => exact ⟨fuel, u, executed, rfl⟩
    | outOfFuel => exact absurd executed (halts u)

theorem Ends.exists_fuel {result : RunResult} (ends : i.Ends m result) :
    ∃ fuel, i.Halts fuel m ∧ worldEnd ((i.execute fuel).run m) = result := by
  cases result with
  | ok _ u =>
    obtain ⟨fuel, m', executed, rfl⟩ := ends
    exact ⟨fuel, halts_of_finished executed, by rw [executed]; rfl⟩
  | error fault u =>
    obtain ⟨fuel, m', executed, rfl⟩ := ends
    exact ⟨fuel, halts_of_error executed, by rw [executed]; rfl⟩

variable {tokens tokens' : List Token} {p q : Program} {dictionary after : Dictionary}

/-- A run is out of fuel exactly if the execution of its program is. -/
theorem IsBare.halts_iff (bare : i.IsBare) (lexed : i.tokens = .ok tokens)
    (parsed : (i.source.parse tokens).run i.base = .ok p dictionary) :
    (∀ u, (i.run fuel).run m ≠ .ok .outOfFuel u) ↔ i.Halts fuel (i.started m p) := by
  unfold Halts
  rw [bare.run_run lexed parsed]
  cases (i.execute fuel).run (i.started m p) with
  | ok ending u => exact Iff.rfl
  | error fault u => exact ⟨fun _ _ ended => (by cases ended), fun _ _ ended => (by cases ended)⟩

/-- Two runs whose executions end with the same effects. -/
theorem endsInlined_run {j : Interpreter} {fuel' : Nat} (bare : i.IsBare) (bare' : j.IsBare)
    (lexed : i.tokens = .ok tokens) (lexed' : j.tokens = .ok tokens')
    (parsed : (i.source.parse tokens).run i.base = .ok p dictionary)
    (parsed' : (j.source.parse tokens').run j.base = .ok q after)
    (halts : i.Halts fuel (i.started m p)) (halts' : j.Halts fuel' (j.started m q))
    (noCalls : j.callSteps fuel' (j.started m q) = 0)
    (same : SameEffects (worldEnd ((i.execute fuel).run (i.started m p)))
      (worldEnd ((j.execute fuel').run (j.started m q)))) :
    EndsInlined (i.callSteps fuel (i.started m p)) ((i.run fuel).run m) ((j.run fuel').run m) := by
  have counted := bare.counters_execute fuel (i.started m p)
  have counted' := bare'.counters_execute fuel' (j.started m q)
  have fresh : (i.started m p).counters.steps = 0 ∧ (i.started m p).counters.accesses = 0 :=
    ⟨rfl, rfl⟩
  have fresh' : (j.started m q).counters.steps = 0 ∧ (j.started m q).counters.accesses = 0 :=
    ⟨rfl, rfl⟩
  rw [bare.run_run lexed parsed, bare'.run_run lexed' parsed']
  cases executed : (i.execute fuel).run (i.started m p) with
  | ok ending u =>
    cases executed' : (j.execute fuel').run (j.started m q) with
    | error fault v => rw [executed, executed'] at same; cases same
    | ok ending' v =>
      rw [executed, executed'] at same
      rw [executed] at counted
      rw [executed'] at counted'
      cases ending with
      | outOfFuel => exact absurd executed (halts u)
      | finished =>
        cases ending' with
        | outOfFuel => exact absurd executed' (halts' v)
        | finished =>
          cases same with
          | ok _ worlds =>
            have accesses : u.counters.accesses = v.counters.accesses :=
              congrArg (·.counters.accesses) worlds
            refine .finished worlds ?_
            dsimp only at counted counted'
            omega
  | error fault u =>
    cases executed' : (j.execute fuel').run (j.started m q) with
    | ok ending' v => rw [executed, executed'] at same; cases same
    | error fault' v =>
      rw [executed, executed'] at same
      rw [executed] at counted
      rw [executed'] at counted'
      cases same with
      | error cause worlds =>
        have accesses : u.counters.accesses = v.counters.accesses :=
          congrArg (·.counters.accesses) worlds
        have failed := Fault.accesses_of_cause cause
        refine .failed (Fault.cause_reported cause _ _) worlds ?_
        dsimp only at counted counted'
        omega

variable {macros : Dictionary}

theorem IsBare.asMacros (bare : i.IsBare) : i.asMacros.IsBare := ⟨bare.events, bare.rules⟩

/-- A text that expands with macros in place of its functions parses, and inlining its calls
gives the program with the macros. -/
theorem exists_parse_of_asMacros (textual : i.setup.tokens = none) (lexed : i.tokens = .ok tokens)
    (defers : DefersCalls tokens)
    (base : ∀ d ∈ i.base.toList, d.kind ≠ .functionForm ∧ Text.SigilFree d.body)
    (compile : i.CallsCompile tokens) (lexed' : i.asMacros.tokens = .ok tokens')
    (parsed' : (i.asMacros.source.parse tokens').run i.base = .ok q macros) :
    ∃ p dictionary, (i.source.parse tokens).run i.base = .ok p dictionary ∧
      Inlined dictionary i.setup.expansionLimit p.operations q.operations := by
  have text : tokenize i.setup.file i.setup.source = .ok tokens := by
    rw [Interpreter.tokens, textual] at lexed
    exact lexed
  have text' : tokenize i.setup.file (Text.asMacros i.setup.source) = .ok tokens' := by
    rw [Interpreter.tokens, show i.asMacros.setup.tokens = none from textual] at lexed'
    exact lexed'
  obtain rfl : tokens' = tokens.map Token.asMacro :=
    Except.ok.inj (text'.symm.trans (tokenize_asMacros text))
  have alike : i.base.Like Definition.Defers i.base :=
    List.forall₂_same.mpr fun d member => .refl (base d member).1 (base d member).2
  obtain ⟨items', expands', spelled'⟩ := Source.exists_spelled parsed'
  obtain ⟨dictionary, ops, items, -, expands, spelled, inlined⟩ :=
    expands'.exists_calls i.source alike defers (tokenize_madeOf (fun _ _ => trivial) text)
      (Nat.le_refl _) spelled'
  have calls := compile items dictionary (Source.run_items expands)
  rw [Item.filterMap_call? spelled] at calls
  have inlined := inlined calls
  have closed : openLoops 0 ops = some 0 :=
    (inlined.openLoops_eq 0).trans (Source.openLoops_of_parse parsed')
  obtain ⟨p, parsed, operations⟩ := Source.exists_parse_of_openLoops expands spelled closed
  exact ⟨p, dictionary, parsed, operations ▸ inlined⟩

/-- Functions are deferred macros. A text that declares first and holds no sigil in its bodies
and call arguments runs as the text with macros in place of functions does, where that one parses,
the calls compile and the run does not meet the limit of nested calls: if either run ends, so
does the other one, alike and after the same effects, with as many steps fewer as calls are made. -/
theorem run_asMacros (bare : i.IsBare) (textual : i.setup.tokens = none)
    (lexed : i.tokens = .ok tokens) (defers : DefersCalls tokens)
    (base : ∀ d ∈ i.base.toList, d.kind ≠ .functionForm ∧ Text.SigilFree d.body)
    (compile : i.CallsCompile tokens) (lexed' : i.asMacros.tokens = .ok tokens')
    (parsed' : (i.asMacros.source.parse tokens').run i.base = .ok q macros)
    (shallow : ∀ fuel e u, (i.run fuel).run m = .error (.runtime e) u →
      e.fault.kind ≠ .callDepth) :
    ∃ p dictionary, (i.source.parse tokens).run i.base = .ok p dictionary ∧
      (∀ fuel, (∀ u, (i.run fuel).run m ≠ .ok .outOfFuel u) →
        ∃ fuel', EndsInlined (i.callSteps fuel (i.started m p)) ((i.run fuel).run m)
          ((i.asMacros.run fuel').run m)) ∧
      ∀ fuel', (∀ u, (i.asMacros.run fuel').run m ≠ .ok .outOfFuel u) →
        ∃ fuel, EndsInlined (i.callSteps fuel (i.started m p)) ((i.run fuel).run m)
          ((i.asMacros.run fuel').run m) := by
  obtain ⟨p, dictionary, parsed, inlined⟩ :=
    exists_parse_of_asMacros textual lexed defers base compile lexed' parsed'
  refine ⟨p, dictionary, parsed, ?_⟩
  obtain ⟨calls, closed, inside⟩ := inlined.exists_closed
  have noCalls : q.callees ⊆ [] := by
    rw [Program.callees, inlined.filterMap_call?]
    exact List.Subset.refl _
  have within := within_started (i := i.asMacros) (m := m) parsed' noCalls
  have noneClosed : i.asMacros.Closed macros [] := fun c member => (List.not_mem_nil member).elim
  have steady := (within_started (m := m) parsed inside).steady bare closed
  have steady' := within.steady bare.asMacros noneClosed
  have runs := ends_started_iff_runs bare parsed steady
  have runs' := ends_started_iff_runs bare.asMacros parsed' steady'
  have block := inlined.block parsed
  have sink : i.asMacros.setup.refuses = i.setup.refuses := rfl
  have start : (i.startWorld m p).effects = (i.asMacros.startWorld m q).effects := rfl
  -- a structured run that ends at the limit of calls is one that the hypothesis excludes
  have notDeep {fuel : Nat} :
      ¬ (worldEnd ((i.execute fuel).run (i.started m p))).TooDeep := by
    rintro ⟨e, u, ended, kind⟩
    have reported := bare.run_run lexed parsed fuel m
    cases executed : (i.execute fuel).run (i.started m p) with
    | ok ending v => rw [executed] at ended; cases ended
    | error fault v =>
      rw [executed] at ended reported
      cases ended
      exact shallow fuel e v reported kind
  constructor
  · intro fuel ended
    have halts := (bare.halts_iff lexed parsed).mp ended
    rcases Runs.exists_inlined sink block ((runs _).mp halts.ends) start with
      deep | ⟨result', followed, same⟩
    · exact absurd deep notDeep
    · obtain ⟨fuel', halts', executed'⟩ := ((runs' result').mpr followed).exists_fuel
      rw [← executed'] at same
      exact ⟨fuel', endsInlined_run bare bare.asMacros lexed lexed' parsed parsed' halts halts'
        (within.callSteps_eq_zero bare.asMacros fuel') same⟩
  · intro fuel' ended
    have halts' := (bare.asMacros.halts_iff lexed' parsed').mp ended
    obtain ⟨result, followed, mirrors⟩ :=
      Runs.exists_calling sink block ((runs' _).mp halts'.ends) start
    obtain ⟨fuel, halts, executed⟩ := ((runs result).mpr followed).exists_fuel
    rw [← executed] at mirrors
    rcases mirrors with deep | same
    · exact absurd deep notDeep
    · exact ⟨fuel, endsInlined_run bare bare.asMacros lexed lexed' parsed parsed' halts halts'
        (within.callSteps_eq_zero bare.asMacros fuel') same⟩

/-- A finished run never fails, with whatever fuel. -/
theorem IsBare.run_ne_error_of_finished (bare : i.IsBare) (lexed : i.tokens = .ok tokens)
    (parsed : (i.source.parse tokens).run i.base = .ok p dictionary) {u : Machine}
    (ended : (i.run fuel).run m = .ok .finished u) (fuel' : Nat) (fault : Fault) (v : Machine) :
    (i.run fuel').run m ≠ .error fault v := by
  intro failed
  have halts : i.Halts fuel (i.started m p) := by
    rw [← bare.halts_iff lexed parsed, ended]
    exact fun _ out => (by cases out)
  have halts' : i.Halts fuel' (i.started m p) := by
    rw [← bare.halts_iff lexed parsed, failed]
    exact fun _ out => (by cases out)
  rw [bare.run_run lexed parsed, run_execute_unique halts' halts, ← bare.run_run lexed parsed,
    ended] at failed
  cases failed

/-- A function whose argument calls another one, a procedure and a macro in a loop. -/
def countdownOfFour : Interpreter :=
  ⟨{ source := ("§inc(n) = n+\n§twice(b) = b b\n$show = .\n@drain(x) = [x-]\n" ++
       "twice(inc(+)) drain(show)").toList
     file := [], expansionLimit := 2 }, oneCell, {}⟩

/-- Its calls. -/
def countdownCalls : List Call := [⟨"twice".toList, ["inc(+)".toList]⟩, ⟨"inc".toList, ["+".toList]⟩]

/-- How its run ends within some fuel, on no input. -/
def countdownOfFourRun (fuel : Nat) : EStateM.Result Fault Machine Ending :=
  (countdownOfFour.run fuel).run (countdownOfFour.start [])

/-- Three calls are what the run has in front of that with macros. -/
theorem run_asMacros_countdownOfFour :
    ∃ u fuel v, countdownOfFourRun 28 = .ok .finished u ∧
      (countdownOfFour.asMacros.run fuel).run (countdownOfFour.start []) = .ok .finished v ∧
      v.output = #[4, 3, 2, 1] ∧ u.counters.steps = 23 ∧ v.counters.steps = 20 := by
  have bare : countdownOfFour.IsBare := ⟨fun _ => rfl, rfl⟩
  have lexes : (countdownOfFour.tokens.toOption.map fun tokens =>
      decide (DefersCalls tokens)) = some true := by
    decide +kernel
  have compiles : (countdownOfFour.tokens.toOption.bind fun tokens =>
      match (countdownOfFour.source.items tokens).run countdownOfFour.base with
      | .ok items dictionary =>
        some ((items.filterMap Item.call?).all (countdownCalls.contains ·) &&
          countdownCalls.all fun c =>
            (dictionary.body 2 c).toOption.any fun p => p.callees.all (countdownCalls.contains ·))
      | .error .. => none) = some true := by
    decide +kernel
  have parses : (countdownOfFour.asMacros.tokens.toOption.bind fun tokens =>
      (outcome ((countdownOfFour.asMacros.source.parse tokens).run
        countdownOfFour.base)).toOption).isSome = true := by
    decide +kernel
  have counts : (countdownOfFour.tokens.toOption.bind fun tokens =>
      (outcome ((countdownOfFour.source.parse tokens).run
        countdownOfFour.base)).toOption.map fun p =>
          countdownOfFour.callSteps 28 (countdownOfFour.started (countdownOfFour.start []) p)) =
      some 3 := by
    decide +kernel
  have finishes : ((outcome (countdownOfFourRun 28)).toOption,
      (endState (countdownOfFourRun 28)).output,
      (endState (countdownOfFourRun 28)).counters.steps) = (some .finished, #[4, 3, 2, 1], 23) := by
    decide +kernel
  cases lexed : countdownOfFour.tokens with
  | error e => rw [lexed] at lexes; cases lexes
  | ok tokens =>
    rw [lexed] at lexes compiles counts
    have defers : DefersCalls tokens := by simpa [Except.toOption] using lexes
    have compile : countdownOfFour.CallsCompile tokens := by
      intro items dictionary ran c member
      simp only [Except.toOption, Option.bind_some, ran, Option.some.injEq, Bool.and_eq_true,
        List.contains_iff_mem, List.all_eq_true, Option.any_eq_true] at compiles
      refine Dictionary.compiles_of_closed ?_ (compiles.1 c member)
      intro d listed
      obtain ⟨p, body, calls⟩ := compiles.2 d listed
      cases compiled : dictionary.body 2 d with
      | error e => rw [compiled] at body; cases body
      | ok q =>
        rw [compiled] at body
        cases body
        exact ⟨p, compiled, calls⟩
    cases lexed' : countdownOfFour.asMacros.tokens with
    | error e => rw [lexed'] at parses; cases parses
    | ok tokens' =>
      rw [lexed'] at parses
      cases parsed' : (countdownOfFour.asMacros.source.parse tokens').run countdownOfFour.base with
      | error e left => simp [Except.toOption, parsed', outcome] at parses
      | ok q macros =>
        cases ended : countdownOfFourRun 28 with
        | error fault u => simp [ended, outcome, Except.toOption] at finishes
        | ok ending u =>
          simp only [ended, outcome, Except.toOption, endState, Prod.mk.injEq, Option.some.injEq]
            at finishes
          obtain ⟨rfl, output, steps⟩ := finishes
          have shallow (fuel : Nat) (e : RuntimeError) (v : Machine)
              (failed : (countdownOfFour.run fuel).run (countdownOfFour.start []) =
                .error (.runtime e) v) : e.fault.kind ≠ .callDepth := by
            cases parsed : (countdownOfFour.source.parse tokens).run countdownOfFour.base with
            | error e left => simp [Except.toOption, parsed, outcome] at counts
            | ok p left => exact absurd failed (bare.run_ne_error_of_finished lexed parsed ended _ _ _)
          obtain ⟨p, dictionary, parsed, ends, -⟩ := run_asMacros bare rfl lexed defers
            (fun d member => (by cases member)) compile lexed' parsed' shallow
          obtain ⟨fuel, both⟩ := ends 28 fun v out => (by cases ended.symm.trans out)
          simp only [Except.toOption, Option.bind_some, parsed, outcome, Option.map_some,
            Option.some.injEq] at counts
          rw [show (countdownOfFour.run 28).run (countdownOfFour.start []) = .ok .finished u
            from ended, counts] at both
          cases finished : (countdownOfFour.asMacros.run fuel).run (countdownOfFour.start []) with
          | error fault v => rw [finished] at both; cases both
          | ok ending v =>
            rw [finished] at both
            cases both with
            | finished worlds counted =>
              have written : u.output = v.output := congrArg World.output worlds
              refine ⟨u, fuel, v, rfl, finished, written.symm.trans output, steps, ?_⟩
              omega

end Interpreter

end TapeLang
