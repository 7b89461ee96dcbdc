import TapeLang.Proofs.Machine.Attempts

/-! Loops that are left open. The error that tells of one comes from the text itself, before
anything is done, or from the body of a function that is called while the text is executed. -/
namespace TapeLang

/-- The error of a loop that is not closed. -/
def Fault.IsOpenLoop : Fault → Prop
  | .source e => e.fault = .unbalancedLoop .opening
  | .runtime _ | .foreign _ => False

theorem exists_raised {α σ ε : Type} {call : α → σ → σ × Option ε} {handlers : List α} {s : σ}
    {e : ε} (raised : (callInTurn call handlers s).2 = some e) :
    ∃ h ∈ handlers, ∃ t, (call h t).2 = some e := by
  induction handlers generalizing s with
  | nil => cases raised
  | cons h rest ih =>
    unfold callInTurn at raised
    split at raised
    · obtain ⟨other, member, t, raised⟩ := ih raised
      exact ⟨other, List.mem_cons_of_mem _ member, t, raised⟩
    · rename_i called
      refine ⟨h, List.mem_cons_self, s, ?_⟩
      rw [called]
      exact raised

/-- An error of handlers was raised by one of them, or it reports a failure from outside. -/
theorem raised_of_handlers {η : Type} {call : η → Machine → Machine × Option Fault}
    {handlers : List η} {report : Text → Fault} {m u : Machine} {fault : Fault}
    (failed : (match callInTurn call handlers m with
        | (m, none) => set m
        | (m, some (.foreign message)) => do
          set m
          throw (report message)
        | (m, some fault) => do
          set m
          throw fault : Exec Unit).run m = .error fault u) :
    (∃ message, fault = report message) ∨ ∃ h ∈ handlers, ∃ t, (call h t).2 = some fault := by
  have ended := (Interpreter.run_handlers call handlers report m).symm.trans failed
  rcases called : callInTurn call handlers m with ⟨v, _ | raised⟩
  · rw [called] at ended
    cases ended
  · rw [called] at ended
    cases ended
    cases raised with
    | foreign message => exact .inl ⟨message, rfl⟩
    | source | runtime => exact .inr (exists_raised (s := m) (by rw [called]; rfl))

namespace Interpreter

variable {i : Interpreter} {m u v : Machine} {fault : Fault}

/-- No handler raises the error of a loop that is not closed. -/
structure IsDiscreet (i : Interpreter) : Prop where
  events : ∀ event, ∀ h ∈ i.setup.services.hooks.handlers event, ∀ notice tape fault,
    (h.react notice tape).2 = some fault → ¬ fault.IsOpenLoop
  rules : ∀ rule ∈ i.setup.services.hooks.rules, ∀ notice tape fault,
    (rule.handler.react notice tape).2 = some fault → ¬ fault.IsOpenLoop

theorem IsBare.isDiscreet (bare : i.IsBare) : i.IsDiscreet := by
  constructor
  · intro event h member
    rw [Hooks.handlers, bare.events] at member
    cases member
  · intro rule member
    rw [bare.rules] at member
    cases member

theorem IsDiscreet.notify (discreet : i.IsDiscreet) {notice : Notice}
    (failed : (i.notify notice).run m = .error fault u) : ¬ fault.IsOpenLoop := by
  rcases raised_of_handlers failed with ⟨message, rfl⟩ | ⟨h, member, t, raised⟩
  · exact id
  · exact discreet.events _ h member _ _ _ raised

theorem IsDiscreet.applyRules (discreet : i.IsDiscreet) {instruction : Instruction}
    (failed : (i.applyRules instruction).run m = .error fault u) : ¬ fault.IsOpenLoop := by
  rcases raised_of_handlers failed with ⟨message, rfl⟩ | ⟨h, member, t, raised⟩
  · exact id
  · obtain ⟨rule, listed, rfl⟩ := List.mem_map.mp member
    exact discreet.rules rule (List.mem_of_mem_filter listed) _ _ _ raised

/-- The next instruction of a machine is a call of a function whose body leaves a loop open. -/
def AtOpenBody (i : Interpreter) (m : Machine) : Prop :=
  ∃ frame rest instruction target args e left,
    m.stack = frame :: rest ∧ frame.code[frame.cursor]? = some instruction ∧
    instruction.op = .call target args ∧
    m.definitions.compile i.setup.expansionLimit ⟨target, args⟩ = .error e left ∧
    e.fault = .unbalancedLoop .opening

theorem Refused.openBody {instruction : Instruction}
    (refused : i.Refused m instruction fault u) (opening : fault.IsOpenLoop) :
    ∃ target args e left, instruction.op = .call target args ∧
      m.definitions.compile i.setup.expansionLimit ⟨target, args⟩ = .error e left ∧
      e.fault = .unbalancedLoop .opening := by
  cases refused with
  | act _ acted =>
    rcases act_fails acted with ⟨_, rfl, -⟩ | ⟨_, _, _, -, rfl⟩ <;> exact absurd opening id
  | depth => exact absurd opening id
  | body op _ ran =>
    rcases bodyOf_fails ran with ⟨-, -, rfl⟩ | ⟨e, left, compiled, -, rfl⟩
    · exact absurd opening id
    · exact ⟨_, _, e, left, op, compiled, opening⟩

/-- An instruction fails in a handler of its notices or of a rule, or where its step does. Handlers
may have changed the tape before the step. -/
theorem advance_fails {frame : Frame} {rest : List Frame} {instruction : Instruction}
    (failed : (i.advance frame rest instruction).run m = .error fault u) :
    (∃ notice v, (i.notify notice).run v = .error fault u) ∨
      (∃ v, (i.applyRules instruction).run v = .error fault u) ∨
      ∃ v raised, m.Aside v ∧ i.Refused v instruction raised u ∧
        fault = raised.placed instruction.op instruction.location u.world := by
  have advanced := i.advanced m frame rest instruction
  generalize i.attempt frame rest instruction m = attempt at advanced
  generalize ended : (i.advance frame rest instruction).run m = result at advanced
  rw [failed] at ended
  cases advanced with
  | kept noticed =>
    cases ended
    exact .inl ⟨_, _, noticed⟩
  | @refused v raised w noticed refused =>
    cases ended
    exact .inr (.inr ⟨v, raised, (i.aside_notify _ m).of_ok noticed, refused, rfl⟩)
  | @completed v effect w _ _ =>
    cases ruled : (i.applyRules instruction).run (i.complete frame rest instruction effect w) with
    | error raised x =>
      rw [run_bind_of_error ruled] at ended
      cases ended
      exact .inr (.inl ⟨_, ruled⟩)
    | ok _ x =>
      rw [run_bind_of_ok ruled] at ended
      exact .inl ⟨_, _, ended.symm⟩

/-- A turn fails for a loop that is not closed only at a call of such a body. -/
theorem IsDiscreet.fails (discreet : i.IsDiscreet) (fails : i.Fails m fault u)
    (opening : fault.IsOpenLoop) : i.AtOpenBody m := by
  obtain ⟨frame, rest, stack, failed⟩ := fails
  unfold turn at failed
  cases found : frame.code[frame.cursor]? with
  | none => rw [found] at failed; cases failed
  | some instruction =>
    rw [found] at failed
    rcases advance_fails failed with
      ⟨_, _, noticed⟩ | ⟨_, ruled⟩ | ⟨v, raised, ⟨tape, log, rfl⟩, refused, rfl⟩
    · exact absurd opening (discreet.notify noticed)
    · exact absurd opening (discreet.applyRules ruled)
    · have opening : raised.IsOpenLoop := by
        cases raised with
        | source | foreign => exact opening
        | runtime e => exact absurd opening id
      obtain ⟨target, args, e, left, op, compiled, unclosed⟩ := refused.openBody opening
      exact ⟨frame, rest, instruction, target, args, e, left, stack, found, op, compiled, unclosed⟩

/-- The text is one whose own loops are not all closed: its items leave a bracket open. -/
def LeavesOpen (i : Interpreter) (file text : Text) (dictionary : Dictionary) : Prop :=
  ∃ tokens items binder after, tokenize file text = .ok tokens ∧
    Expansion.Expands (i.sourceOf file text) i.setup.expansionLimit.toNat [] none tokens dictionary
      items after ∧
    items.foldlM LoopBinder.consume {} = .ok binder ∧ binder.pending ≠ []

/-- Such a text is refused for a loop that is not closed, and no other text is. -/
theorem leavesOpen_iff {file text : Text} {dictionary : Dictionary} :
    i.LeavesOpen file text dictionary ↔
      ∃ e, i.readText file text dictionary = .error e ∧ e.fault = .unbalancedLoop .opening := by
  cases lexed : tokenize file text with
  | error e' =>
    constructor
    · rintro ⟨tokens, _, _, _, other, -⟩
      cases lexed.symm.trans other
    · rintro ⟨e, refused, opening⟩
      rw [readText, lexed] at refused
      cases refused
      obtain ⟨line, column, rfl⟩ := tokenize_fails lexed
      cases opening
  | ok tokens =>
    rw [readText_of_tokenize lexed]
    constructor
    · rintro ⟨_, items, binder, after, same, expands, taken, pending⟩
      cases lexed.symm.trans same
      obtain ⟨e, left, failed, opening⟩ :=
        Source.parse_open_iff.mpr ⟨items, binder, after, expands, taken, pending⟩
      rw [failed]
      exact ⟨e, rfl, opening⟩
    · rintro ⟨e, failed, opening⟩
      cases ran : ((i.sourceOf file text).parse tokens).run dictionary with
      | ok p left => rw [ran] at failed; cases failed
      | error e' left =>
        rw [ran] at failed
        cases failed
        obtain ⟨items, binder, after, expands, taken, pending⟩ :=
          Source.parse_open_iff.mp ⟨e, left, ran, opening⟩
        exact ⟨tokens, items, binder, after, lexed, expands, taken, pending⟩

/-- Executing a text, the machine comes to a call of a function whose body leaves a loop open.
Handlers may have changed the tape before the first step. -/
def MeetsOpenBody (i : Interpreter) (file text : Text) (m : Machine) : Prop :=
  ∃ p start n v, i.readText file text m.definitions = .ok p ∧ (m.holding p).Aside start ∧
    i.Turns n (start.opened p) v ∧ i.AtOpenBody v

/-- Without instructions no call is met. -/
theorem size_pos_of_atOpenBody {start : Machine} {p : Program} {n : Nat}
    (turns : i.Turns n (start.opened p) v) (met : i.AtOpenBody v) : 0 < p.size := by
  apply Nat.pos_of_ne_zero
  intro empty
  have done : p.instructions[0]? = none := Array.getElem?_eq_none (Nat.le_of_eq empty)
  obtain ⟨frame, rest, instruction, _, _, _, _, stack, found, -⟩ := met
  cases turns with
  | nil =>
    cases stack
    cases done.symm.trans found
  | cons turn others =>
    obtain ⟨top, outer, opened, turned⟩ := turn
    cases opened
    unfold Interpreter.turn at turned
    dsimp only at turned
    rw [done] at turned
    cases turned
    -- no frame is left, so there is no further turn
    cases others with
    | nil => cases stack
    | cons turn _ =>
      obtain ⟨_, _, opened, -⟩ := turn
      cases opened

/-- Executing a text fails for a loop that is not closed where its own loops are not, and then
nothing is done; or in the midst of its execution, and then its size at least is counted. -/
theorem IsDiscreet.evaluate (discreet : i.IsDiscreet) {fuel : Nat} {file text : Text}
    (failed : (i.evaluate fuel file text).run m = .error fault u) (opening : fault.IsOpenLoop) :
    (i.LeavesOpen file text m.definitions ∧ u = m) ∨
      i.MeetsOpenBody file text m ∧ m.counters.programSize < u.counters.programSize := by
  rw [evaluate_eq] at failed
  cases read : i.readText file text m.definitions with
  | error e =>
    rw [read] at failed
    cases failed
    exact .inl ⟨leavesOpen_iff.mpr ⟨e, read, opening⟩, rfl⟩
  | ok p =>
    right
    rw [read] at failed
    dsimp only at failed
    cases noticed : (i.notify (.programParsed p.size)).run (m.holding p) with
    | error raised w =>
      rw [noticed] at failed
      cases failed
      exact absurd opening (discreet.notify noticed)
    | ok _ w =>
      have beside := (i.aside_notify _ (m.holding p)).of_ok noticed
      rw [noticed] at failed
      dsimp only at failed
      rcases i.execute_cases fuel (w.opened p) with
        ⟨_, _, _, ran, -⟩ | ⟨_, _, n, v, ran, turns, fails⟩
      · rw [ran] at failed
        cases failed
      · rw [ran] at failed
        cases failed
        have met := discreet.fails fails opening
        refine ⟨⟨p, w, n, v, read, beside, turns, met⟩, ?_⟩
        have larger := ((i.grows_execute fuel (w.opened p)).of_error ran).size
        have positive := size_pos_of_atOpenBody turns met
        obtain ⟨tape, log, rfl⟩ := beside
        change m.counters.programSize + p.size ≤ _ at larger
        change _ < u.counters.programSize
        change _ ≤ u.counters.programSize at larger
        omega

end Interpreter
end TapeLang
