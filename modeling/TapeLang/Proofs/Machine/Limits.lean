import TapeLang.Proofs.Expansion.Leeway
import TapeLang.Proofs.Machine.Compiled
import TapeLang.Proofs.Machine.Tracking

/-! Limits are only guards. What is read within a limit of nesting is read within any higher one,
and a machine with a larger tape and higher limits does what the other one does, turn by turn. -/
namespace TapeLang

variable {limit higher : Int}

/-- A program is read alike with any higher limit. -/
theorem Source.parse_within {source : Source} {tokens : List Token} {before after : Dictionary}
    {p : Program} (parsed : (source.parse tokens).run before = .ok p after)
    (le : source.limit ≤ limit) :
    (Source.parse { source with limit } tokens).run before = .ok p after := by
  obtain ⟨items, binder, expands, bound⟩ := run_parse_eq_ok_iff.mp parsed
  exact run_parse_eq_ok_iff.mpr
    ⟨items, binder, expands.within limit (Int.toNat_le_toNat le) fun _ => id, bound⟩

theorem Dictionary.compile_within {dictionary left : Dictionary} {c : Call} {p : Program}
    (compiled : dictionary.compile limit c = .ok p left) (le : limit ≤ higher) :
    dictionary.compile higher c = .ok p left := by
  obtain ⟨d, source, tokens, items, binder, found, made, expands, bound⟩ :=
    compile_eq_ok_iff.mp compiled
  have limited : source.limit = limit ∧
      d.bodySource c.args higher = .ok ({ source with limit := higher }, tokens) := by
    unfold Definition.bodySource at made ⊢
    cases instantiated : d.instantiate c.args with
    | error e => rw [instantiated] at made; cases made
    | ok text =>
      rw [instantiated] at made
      dsimp only [bind, Except.bind] at made ⊢
      cases lexed : tokenize ('<' :: d.name ++ ['>']) text with
      | error e => rw [lexed] at made; cases made
      | ok _ =>
        rw [lexed] at made
        cases made
        exact ⟨rfl, rfl⟩
  obtain ⟨rfl, made'⟩ := limited
  exact compile_eq_ok_iff.mpr ⟨d, _, tokens, items, binder, found, made',
    expands.within higher (Int.toNat_le_toNat le) fun _ => id, bound⟩

theorem Tables.Gives.within {t t' : Tables} {c : Call} {p : Program}
    (gives : t.Gives limit c p t') (le : limit ≤ higher) : t.Gives higher c p t' := by
  cases gives with
  | kept known => exact .kept known
  | compiled unknown found form compiled =>
    exact .compiled unknown found form (Dictionary.compile_within compiled le)

theorem Prelude.load_within {prelude : Prelude} {before after : Dictionary}
    (loaded : prelude.load limit before = .ok after) (le : limit ≤ higher) :
    prelude.load higher before = .ok after := by
  unfold load at loaded ⊢
  dsimp only [bind, Except.bind] at loaded ⊢
  cases lexed : tokenize (Prelude.file prelude.name) prelude.text with
  | error e => rw [lexed] at loaded; cases loaded
  | ok tokens =>
    rw [lexed] at loaded
    dsimp only at loaded ⊢
    cases parsed : ((Source.ofText (Prelude.file prelude.name) prelude.text limit).parse
      tokens).run before with
    | error e left => rw [parsed] at loaded; cases loaded
    | ok p left =>
      rw [parsed] at loaded
      cases loaded
      rw [show Source.ofText (Prelude.file prelude.name) prelude.text higher =
        { Source.ofText (Prelude.file prelude.name) prelude.text limit with limit := higher }
          from rfl, Source.parse_within parsed le]
      rfl

theorem Setup.freshTable_within {s : Setup} {base : Dictionary}
    (read : s.freshTable = .ok base) (le : s.expansionLimit ≤ higher) :
    Setup.freshTable { s with expansionLimit := higher } = .ok base := by
  have folds {preludes : List Prelude} {before after : Dictionary}
      (read : preludes.foldlM (fun dictionary prelude => prelude.load s.expansionLimit dictionary)
        before = .ok after) :
      preludes.foldlM (fun dictionary prelude => prelude.load higher dictionary) before =
        .ok after := by
    induction preludes generalizing before with
    | nil => exact read
    | cons prelude rest ih =>
      obtain ⟨next, one, others⟩ := foldlM_cons_eq_ok_iff.mp read
      exact foldlM_cons_eq_ok_iff.mpr ⟨next, Prelude.load_within one le, ih others⟩
  exact folds read

theorem Tape.ofSize?_within {size larger : Int} {t : Tape} (made : ofSize? size = some t)
    (le : size ≤ larger) : ∃ u, ofSize? larger = some u ∧ t.Within u := by
  unfold ofSize? at made ⊢
  split at made
  case isTrue positive =>
    cases made
    rw [dif_pos (by omega)]
    exact ⟨_, rfl, rfl, rfl, Int.toNat_le_toNat le⟩
  case isFalse => cases made

/-- A set-up with other limits. -/
def Setup.withLimits (s : Setup) (size calls levels : Int) : Setup :=
  { s with tapeSize := size, callLimit := calls, expansionLimit := levels }

theorem Setup.load_within {s : Setup} {i : Interpreter} (loaded : s.load = .ok i)
    {size levels : Int} (calls : Int) (cells : s.tapeSize ≤ size)
    (nested : s.expansionLimit ≤ levels) :
    ∃ blank, (s.withLimits size calls levels).load =
      .ok ⟨s.withLimits size calls levels, blank, i.base⟩ ∧ i.blank.Within blank := by
  obtain ⟨-, made, read⟩ := load_eq_ok_iff.mp loaded
  obtain ⟨blank, made', within⟩ := Tape.ofSize?_within made cells
  exact ⟨blank, load_eq_ok_iff.mpr ⟨rfl, made', freshTable_within read nested⟩, within⟩

namespace Interpreter

variable {i j : Interpreter} {m : Machine}

/-- How a machine is compared with one that runs the same program within higher limits. -/
def higherLimits (p : Program) : Tracking where
  Called _ := True
  Tabled := Eq
  part := p.instructions
  whole := p.instructions

theorem valid_higherLimits {source : Source} {tokens : List Token} {before after : Dictionary}
    {p : Program} (parsed : (source.parse tokens).run before = .ok p after) (bare : i.IsBare)
    (bare' : j.IsBare) (sink : j.setup.refuses = i.setup.refuses)
    (room : i.setup.callLimit ≤ j.setup.callLimit)
    (nested : i.setup.expansionLimit ≤ j.setup.expansionLimit) :
    (higherLimits p).Valid i j where
  bare := bare
  bare' := bare'
  sink := sink
  room := room
  window := .refl _
  safe := ⟨after, Source.codeSafe parsed⟩
  calls _ _ := trivial
  bodies := by
    rintro s _ c q s' rfl - gives
    exact ⟨fun _ _ => trivial, q, s', gives.within nested, rfl, rfl⟩

/-- A run that goes through its limits goes through any higher ones, to the same end: it reads the
same program and leaves the same output, definitions and counters and the same tape, on which the
cells that were added are zero. -/
theorem run_within {s : Setup} (loaded : s.load = .ok i) (bare : i.IsBare)
    {size calls levels : Int} (cells : s.tapeSize ≤ size) (frames : s.callLimit ≤ calls)
    (nested : s.expansionLimit ≤ levels) {input : List Int} {fuel : Nat} {ending : Ending}
    (ran : (i.run fuel).run (i.start input) = .ok ending m) :
    ∃ j n, (s.withLimits size calls levels).load = .ok j ∧
      (j.run fuel).run (j.start input) = .ok ending n ∧
      (∃ p, i.readSetup = .ok p ∧ j.readSetup = .ok p) ∧
      n.output = m.output ∧ n.input = m.input ∧ n.definitions = m.definitions ∧
      n.counters = m.counters ∧ n.tape.dump = m.tape.dump ∧ n.tape.pointer = m.tape.pointer ∧
      n.tape.peak = m.tape.peak ∧ ∀ k : Nat, s.tapeSize ≤ k → n.tape.cell k = 0 := by
  obtain ⟨blank, loaded', within⟩ := Setup.load_within loaded calls cells nested
  obtain ⟨rfl, made, -⟩ := Setup.load_eq_ok_iff.mp loaded
  let j : Interpreter := ⟨i.setup.withLimits size calls levels, blank, i.base⟩
  have bare' : j.IsBare := ⟨bare.events, bare.rules⟩
  cases read : i.readSetup with
  | error e =>
    obtain ⟨u, failed, -⟩ := run_unread read fuel (i.start input)
    cases ran.symm.trans failed
  | ok p =>
    obtain ⟨tokens, lexed, parsed⟩ := exists_parse_of_readSetup read
    have parsed' : (j.source.parse tokens).run j.base = .ok p p.definitions :=
      Source.parse_within parsed nested
    have read' : j.readSetup = .ok p := by
      rw [readSetup_of_tokens (i := j) lexed, parsed']
      rfl
    rw [bare.run_run lexed parsed] at ran
    cases executed : (i.execute fuel).run (i.started (i.start input) p) with
    | error fault u => rw [executed] at ran; cases ran
    | ok ending' m' =>
      rw [executed] at ran
      cases ran
      have tracks : (higherLimits p).Tracks (i.started (i.start input) p)
          (j.started (j.start input) p) :=
        ⟨⟨within, rfl, rfl, rfl⟩, .outermost ⟨rfl, rfl, rfl, Nat.zero_le _⟩, rfl⟩
      have valid := valid_higherLimits parsed bare bare' rfl frames nested
      obtain ⟨n, executed', world, tables⟩ :=
        valid.execute (Nat.le_of_eq (Nat.zero_add _).symm) tracks executed
      refine ⟨j, n, loaded', ?_, ⟨p, rfl, read'⟩, world.output, world.input,
        congrArg Tables.definitions tables.symm, world.counters, world.tape.dump,
        world.tape.pointer, world.tape.peak, ?_⟩
      · rw [bare'.run_run lexed parsed', executed']
      · intro k beyond
        have sized : m.tape.size = i.blank.size := bare.tapeSize_execute executed
        have blankSize := Tape.size_ofSize? made
        have low := m.tape.peak_lt_size
        have same : n.tape.peak = m.tape.peak := world.tape.peak
        exact n.tape.cell_of_peak_lt (by omega)

/-- A program that fills its tape, expands a macro and opens as many frames as there may be. -/
def tight : Setup where
  source := "$two = ++\n§clear = [-clear]\ntwo>two clear<.".toList
  file := []
  tapeSize := 2
  callLimit := 4
  expansionLimit := 1

/-- It leaves the same with the usual limits. -/
theorem run_within_tight : ∃ i m j n, tight.load = .ok i ∧
    (i.run 40).run (i.start []) = .ok .finished m ∧ m.output = #[2] ∧
    (tight.withLimits 30000 1000 64).load = .ok j ∧
    (j.run 40).run (j.start []) = .ok .finished n ∧ n.output = #[2] ∧
    n.counters = m.counters ∧ n.tape.dump = m.tape.dump ∧
    ∀ k : Nat, 2 ≤ k → n.tape.cell k = 0 := by
  have ends : tight.load.toOption.map (fun i =>
      ((outcome ((i.run 40).run (i.start []))).toOption,
        (endState ((i.run 40).run (i.start []))).output)) = some (some .finished, #[2]) := by
    decide +kernel
  cases loaded : tight.load with
  | error e => rw [loaded] at ends; cases ends
  | ok i =>
    have bare : i.IsBare := by
      obtain ⟨same, -⟩ := Setup.load_eq_ok_iff.mp loaded
      constructor <;> (rw [same]; intros; rfl)
    rw [loaded] at ends
    cases ran : (i.run 40).run (i.start []) with
    | error fault u => simp [Except.toOption, ran, outcome] at ends
    | ok ending m =>
      simp only [Except.toOption, Option.map_some, ran, outcome, endState, Option.some.injEq,
        Prod.mk.injEq] at ends
      obtain ⟨rfl, written⟩ := ends
      obtain ⟨j, n, loaded', ran', -, output, -, -, counters, dump, -, -, zero⟩ :=
        run_within loaded bare (show (2 : Int) ≤ 30000 by decide)
          (show (4 : Int) ≤ 1000 by decide) (show (1 : Int) ≤ 64 by decide) ran
      exact ⟨i, m, j, n, rfl, ran, written, loaded', ran', output.trans written, counters, dump,
        fun k beyond => zero k (Int.ofNat_le.mpr beyond)⟩

end Interpreter
end TapeLang
