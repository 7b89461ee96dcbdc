import TapeLang.Proofs.Machine.Growth
import TapeLang.Proofs.Machine.Places

/-! What holds at every point of every session of a machine without handlers. It holds after a
fresh start, and gathering, entering a program and every single turn keep it. -/
namespace TapeLang

namespace Machine

/-- The machine that has read a program. -/
def holding (m : Machine) (p : Program) : Machine :=
  { m with
    definitions := p.definitions
    counters := { m.counters with programSize := m.counters.programSize + p.size } }

/-- The machine with one frame, for a program. -/
def opened (m : Machine) (p : Program) : Machine :=
  { m with
    stack := [{ name := "<top-level>".toList, code := p.instructions, number := m.frameCount
                calledFrom := none }]
    frameCount := m.frameCount + 1 }

/-- The machine on which a program is executed that was read on it. -/
def entering (m : Machine) (p : Program) : Machine := (m.holding p).opened p

end Machine

namespace Interpreter

/-- The program that a text makes on some definitions. -/
def readText (i : Interpreter) (file text : Text) (dictionary : Dictionary) :
    Except SourceError Program := do
  outcome (((i.sourceOf file text).parse (← tokenize file text)).run dictionary)

/-- The program of the set-up. -/
def readSetup (i : Interpreter) : Except SourceError Program := do
  outcome ((i.source.parse (← i.tokens)).run i.base)

/-- The machine on which a request executes its program, once that is read. -/
def entered? (i : Interpreter) (m : Machine) : Request → Option Machine
  | .evaluate _ file text => (i.readText file text m.definitions).toOption.map m.entering
  | .run _ => i.readSetup.toOption.map (i.reset m).entering
  | _ => none

variable {i : Interpreter} {m m' : Machine} {n : Nat}

theorem entered?_evaluate {fuel : Nat} {file text : Text} {start : Machine} :
    i.entered? m (.evaluate fuel file text) = some start ↔
      ∃ p, i.readText file text m.definitions = .ok p ∧ m.entering p = start := by
  cases read : i.readText file text m.definitions <;> simp [entered?, read, Except.toOption]

theorem entered?_run {fuel : Nat} {start : Machine} :
    i.entered? m (.run fuel) = some start ↔
      ∃ p, i.readSetup = .ok p ∧ (i.reset m).entering p = start := by
  cases read : i.readSetup <;> simp [entered?, read, Except.toOption]

theorem started_eq_entering (p : Program) : i.started m p = (i.reset m).entering p := by
  simp [started, Machine.entering, Machine.opened, Machine.holding, reset]

theorem readText_of_tokenize {file text : Text} {tokens : List Token}
    (lexed : tokenize file text = .ok tokens) (dictionary : Dictionary) :
    i.readText file text dictionary =
      outcome (((i.sourceOf file text).parse tokens).run dictionary) := by
  rw [readText, lexed]
  rfl

theorem readSetup_of_tokens {tokens : List Token} (lexed : i.tokens = .ok tokens) :
    i.readSetup = outcome ((i.source.parse tokens).run i.base) := by
  rw [readSetup, lexed]
  rfl

theorem parse_of_outcome {source : Source} {tokens : List Token} {dictionary : Dictionary}
    {p : Program} (read : outcome ((source.parse tokens).run dictionary) = .ok p) :
    (source.parse tokens).run dictionary = .ok p p.definitions := by
  cases parsed : (source.parse tokens).run dictionary with
  | error e left => rw [parsed] at read; cases read
  | ok q left =>
    rw [parsed] at read
    cases read
    rw [Source.definitions_eq parsed]

theorem exists_parse_of_readText {file text : Text} {dictionary : Dictionary} {p : Program}
    (read : i.readText file text dictionary = .ok p) :
    ∃ tokens, tokenize file text = .ok tokens ∧
      ((i.sourceOf file text).parse tokens).run dictionary = .ok p p.definitions := by
  cases lexed : tokenize file text with
  | error e => rw [readText, lexed] at read; cases read
  | ok tokens =>
    rw [readText_of_tokenize lexed] at read
    exact ⟨tokens, rfl, parse_of_outcome read⟩

theorem exists_parse_of_readSetup {p : Program} (read : i.readSetup = .ok p) :
    ∃ tokens, i.tokens = .ok tokens ∧
      (i.source.parse tokens).run i.base = .ok p p.definitions := by
  cases lexed : i.tokens with
  | error e => rw [readSetup, lexed] at read; cases read
  | ok tokens =>
    rw [readSetup_of_tokens lexed] at read
    exact ⟨tokens, rfl, parse_of_outcome read⟩

/-- A machine executes turn by turn, until no frame is left, a turn fails or the fuel is used up. -/
theorem execute_cases (i : Interpreter) (fuel : Nat) (m : Machine) :
    (∃ ending n m', (i.execute fuel).run m = .ok ending m' ∧ i.Turns n m m' ∧
      (ending = .finished → m'.stack = [])) ∨
    ∃ fault u n m', (i.execute fuel).run m = .error fault u ∧ i.Turns n m m' ∧
      i.Fails m' fault u := by
  induction fuel generalizing m with
  | zero => exact .inl ⟨.outOfFuel, 0, m, rfl, .nil, nofun⟩
  | succ fuel ih =>
    cases stack : m.stack with
    | nil => exact .inl ⟨.finished, 0, m, run_execute_empty stack fuel, .nil, fun _ => stack⟩
    | cons frame rest =>
      cases turned : (i.turn frame rest).run m with
      | error fault u =>
        have fails : i.Fails m fault u := ⟨frame, rest, stack, turned⟩
        exact .inr ⟨fault, u, 0, m, fails.run_execute fuel, .nil, fails⟩
      | ok ended u =>
        have turn : i.Turn m u := ⟨frame, rest, stack, turned⟩
        rw [run_execute_succ stack, run_bind_of_ok turned]
        rcases ih u with ⟨ending, n, m', ran, turns, empty⟩ | ⟨fault, v, n, m', ran, turns, fails⟩
        · exact .inl ⟨ending, n + 1, m', ran, .cons turn turns, empty⟩
        · exact .inr ⟨fault, v, n + 1, m', ran, .cons turn turns, fails⟩

theorem run_executeProgram (fuel : Nat) (p : Program) (m : Machine) :
    (i.executeProgram fuel p).run { m with stack := [] } = (i.execute fuel).run (m.opened p) := by
  rw [executeProgram, openFrame, EStateM.run_bind, EStateM.run_bind, EStateM.run_get]
  rfl

/-- A text that cannot be read changes nothing. One that is read is announced to the handlers and
executed in a frame of its own. -/
theorem evaluate_eq (i : Interpreter) (fuel : Nat) (file text : Text) (m : Machine) :
    (i.evaluate fuel file text).run m =
      match i.readText file text m.definitions with
      | .error e => .error (.source e) m
      | .ok p =>
        match (i.notify (.programParsed p.size)).run (m.holding p) with
        | .error fault u => .error fault u
        | .ok _ u =>
          match (i.execute fuel).run (u.opened p) with
          | .ok ending v => .ok (p, ending) v
          | .error fault v => .error fault v := by
  unfold evaluate
  cases lexed : tokenize file text with
  | error e =>
    rw [readText, lexed]
    rfl
  | ok tokens =>
    rw [readText_of_tokenize lexed]
    dsimp only
    rw [EStateM.run_bind, EStateM.run_get]
    dsimp only
    cases parsed : ((i.sourceOf file text).parse tokens).run m.definitions with
    | error e left => rfl
    | ok p left =>
      obtain rfl := Source.definitions_eq parsed
      dsimp only [outcome]
      rw [EStateM.run_bind, EStateM.run_modify]
      dsimp only
      rw [addSize, count, EStateM.run_bind, EStateM.run_modify]
      dsimp only
      change ((i.notify (.programParsed p.size) >>= _).run (m.holding p)) = _
      cases notified : (i.notify (.programParsed p.size)).run (m.holding p) with
      | error fault u => rw [run_bind_of_error notified]
      | ok ended u =>
        rw [run_bind_of_ok notified, EStateM.run_bind, EStateM.run_modify]
        dsimp only
        rw [EStateM.run_bind, run_executeProgram]
        cases (i.execute fuel).run (u.opened p) <;> rfl

theorem IsBare.evaluate_eq (bare : i.IsBare) (fuel : Nat) (file text : Text) (m : Machine) :
    (i.evaluate fuel file text).run m =
      match i.readText file text m.definitions with
      | .error e => .error (.source e) m
      | .ok p =>
        match (i.execute fuel).run (m.entering p) with
        | .ok ending u => .ok (p, ending) u
        | .error fault u => .error fault u := by
  rw [Interpreter.evaluate_eq]
  cases i.readText file text m.definitions with
  | error e => rfl
  | ok p =>
    dsimp only
    rw [bare.run_notify]
    rfl

theorem IsBare.evaluate_eq_ok_iff (bare : i.IsBare) {fuel : Nat} {file text : Text} {p : Program}
    {ending : Ending} :
    (i.evaluate fuel file text).run m = .ok (p, ending) m' ↔
      i.readText file text m.definitions = .ok p ∧
        (i.execute fuel).run (m.entering p) = .ok ending m' := by
  rw [bare.evaluate_eq]
  cases i.readText file text m.definitions with
  | error e => exact ⟨nofun, by rintro ⟨⟨⟩, -⟩⟩
  | ok q =>
    dsimp only
    constructor
    · intro ran
      cases executed : (i.execute fuel).run (m.entering q) with
      | error fault v => rw [executed] at ran; cases ran
      | ok ended v =>
        rw [executed] at ran
        cases ran
        exact ⟨rfl, executed⟩
    · rintro ⟨⟨⟩, executed⟩
      rw [executed]

/-- What parsing comes to: the program is read on the definitions at hand, and no handler of its
notice raises. -/
theorem run_parse_eq_ok_iff {tokens : List Token} {p : Program} {u : Machine}
    (lexed : i.tokens = .ok tokens) :
    i.parse.run m = .ok p u ↔
      (i.source.parse tokens).run m.definitions = .ok p p.definitions ∧
        (i.notify (.programParsed p.size)).run (m.holding p) = .ok () u := by
  unfold parse
  rw [lexed]
  dsimp only
  have declared := run_declaring (i.source.parse tokens) m
  cases parsed : (i.source.parse tokens).run m.definitions with
  | error e left =>
    rw [parsed] at declared
    rw [run_bind_of_error declared]
    simp
  | ok q left =>
    obtain rfl := Source.definitions_eq parsed
    rw [parsed] at declared
    rw [run_bind_of_ok declared, addSize, count, EStateM.run_bind, EStateM.run_modify]
    change (i.notify (.programParsed q.size) >>= fun _ => pure q).run (m.holding q) = .ok p u ↔ _
    rw [run_bind_eq_ok_iff]
    constructor
    · rintro ⟨_, v, told, ended⟩
      cases ended
      exact ⟨rfl, told⟩
    · rintro ⟨same, told⟩
      cases same
      exact ⟨(), u, told, rfl⟩

theorem run_parse_of_error {tokens : List Token} {e : SourceError} {left : Dictionary}
    (lexed : i.tokens = .ok tokens)
    (failed : (i.source.parse tokens).run m.definitions = .error e left) :
    i.parse.run m = .error (.source e) { m with definitions := left } := by
  have declared := run_declaring (i.source.parse tokens) m
  rw [failed] at declared
  unfold parse
  rw [lexed]
  dsimp only
  rw [run_bind_of_error declared]

/-- A set-up that cannot be read leaves what reading it gathered. -/
theorem run_unread {e : SourceError} (unread : i.readSetup = .error e) (fuel : Nat)
    (m : Machine) :
    ∃ left, (i.run fuel).run m = .error (.source e) { i.reset m with definitions := left } ∧
      i.Learns (i.reset m) { i.reset m with definitions := left } := by
  have parsed : ∃ left, i.parse.run (i.reset m) =
      .error (.source e) { i.reset m with definitions := left } := by
    cases lexed : i.tokens with
    | error e' =>
      rw [readSetup, lexed] at unread
      cases unread
      unfold parse
      rw [lexed]
      exact ⟨i.base, rfl⟩
    | ok tokens =>
      rw [readSetup_of_tokens lexed] at unread
      cases ran : (i.source.parse tokens).run i.base with
      | ok p left => rw [ran] at unread; cases unread
      | error e' left =>
        rw [ran] at unread
        cases unread
        exact ⟨left, run_parse_of_error lexed ran⟩
  obtain ⟨left, failed⟩ := parsed
  refine ⟨left, ?_, (i.learns_parse (i.reset m)).of_error failed⟩
  rw [run, EStateM.run_bind, EStateM.run_modify]
  exact run_bind_of_error failed _

/-- With a sink that takes every byte, no failure of a turn comes from outside of the program. -/
theorem IsBare.fails_inside (bare : i.IsBare)
    (accepting : ∀ taken byte, i.setup.refuses taken byte = none) {fault : Fault}
    (fails : i.Fails m fault m') (message : Text) : fault ≠ .foreign message := by
  obtain ⟨frame, rest, instruction, raised, -, -, refused, rfl⟩ := bare.fails_cases fails
  have inside : ∀ message, raised ≠ .foreign message := by
    intro message
    cases refused with
    | act _ acted => exact act_inside accepting acted message
    | depth => exact Fault.noConfusion
    | body _ _ ran =>
      rcases bodyOf_fails ran with ⟨-, -, rfl⟩ | ⟨e, left, -, -, rfl⟩ <;> exact Fault.noConfusion
  intro same
  cases raised with
  | foreign message => exact inside message rfl
  | source | runtime => cases same

end Interpreter

/-- How the execution ended that an answer tells of. -/
def Answer.ending? : Answer → Option Interpreter.Ending
  | .evaluated _ ending | .ran ending => some ending
  | _ => none

namespace Interpreter

variable {i : Interpreter} {m m' : Machine} {n : Nat}

theorem IsBare.evaluate_executes (bare : i.IsBare) {file text : Text} {p : Program}
    (read : i.readText file text m.definitions = .ok p) (fuel : Nat) :
    (∃ ending n u, (i.answer (.evaluate fuel file text)).run m = .ok (.evaluated p.size ending) u ∧
      i.Turns n (m.entering p) u ∧ (ending = .finished → u.stack = [])) ∨
    ∃ fault u n m', (i.answer (.evaluate fuel file text)).run m = .error fault u ∧
      i.Turns n (m.entering p) m' ∧ i.Fails m' fault u := by
  have evaluated := bare.evaluate_eq fuel file text m
  rw [read] at evaluated
  dsimp only at evaluated
  rcases i.execute_cases fuel (m.entering p) with
    ⟨ending, n, u, ran, turns, empty⟩ | ⟨fault, u, n, m', ran, turns, fails⟩
  · rw [ran] at evaluated
    exact .inl ⟨ending, n, u, run_bind_of_ok evaluated _, turns, empty⟩
  · rw [ran] at evaluated
    exact .inr ⟨fault, u, n, m', run_bind_of_error evaluated _, turns, fails⟩

theorem IsBare.run_executes (bare : i.IsBare)
    (accepting : ∀ taken byte, i.setup.refuses taken byte = none) {p : Program}
    (read : i.readSetup = .ok p) (fuel : Nat) (m : Machine) :
    (∃ ending n u, (i.answer (.run fuel)).run m = .ok (.ran ending) u ∧
      i.Turns n ((i.reset m).entering p) u ∧ (ending = .finished → u.stack = [])) ∨
    ∃ fault u n m', (i.answer (.run fuel)).run m = .error fault u ∧
      i.Turns n ((i.reset m).entering p) m' ∧ i.Fails m' fault u := by
  obtain ⟨tokens, lexed, parsed⟩ := exists_parse_of_readSetup read
  have ended := bare.run_run lexed parsed fuel m
  rw [started_eq_entering] at ended
  rcases i.execute_cases fuel ((i.reset m).entering p) with
    ⟨ending, n, u, ran, turns, empty⟩ | ⟨fault, u, n, m', ran, turns, fails⟩
  · rw [ran] at ended
    exact .inl ⟨ending, n, u, run_bind_of_ok ended _, turns, empty⟩
  · rw [ran] at ended
    have inside := bare.fails_inside accepting fails
    have reported : fault.reported u.world = fault := by
      cases fault with
      | source | runtime => rfl
      | foreign message => exact absurd rfl (inside message)
    dsimp only at ended
    rw [reported] at ended
    exact .inr ⟨fault, u, n, m', run_bind_of_error ended _, turns, fails⟩

/-- A request whose program is read does what the machine does turn by turn that the program is
entered on. -/
theorem IsBare.executes (bare : i.IsBare)
    (accepting : ∀ taken byte, i.setup.refuses taken byte = none) {request : Request}
    {start : Machine} (entered : i.entered? m request = some start) :
    (∃ answer ending n u, (i.answer request).run m = .ok answer u ∧
      answer.ending? = some ending ∧ i.Turns n start u ∧ (ending = .finished → u.stack = [])) ∨
    ∃ fault u n m', (i.answer request).run m = .error fault u ∧ i.Turns n start m' ∧
      i.Fails m' fault u := by
  cases request with
  | evaluate fuel file text =>
    obtain ⟨p, read, rfl⟩ := entered?_evaluate.mp entered
    rcases bare.evaluate_executes read fuel with
      ⟨ending, n, u, ran, ended⟩ | failed
    · exact .inl ⟨_, ending, n, u, ran, rfl, ended⟩
    · exact .inr failed
  | run fuel =>
    obtain ⟨p, read, rfl⟩ := entered?_run.mp entered
    rcases bare.run_executes accepting read fuel m with
      ⟨ending, n, u, ran, ended⟩ | failed
    · exact .inl ⟨_, ending, n, u, ran, rfl, ended⟩
    · exact .inr failed
  | parse | check | reset | bodyOf | shortForm | toC => cases entered

/-- A program that cannot be read is not executed. -/
theorem IsBare.unread (bare : i.IsBare) {request : Request} (executes : request.executes = true)
    (unread : i.entered? m request = none) :
    ∃ e u, (i.answer request).run m = .error (.source e) u ∧
      (i.Learns m u ∨ i.Learns (i.reset m) u) := by
  cases request with
  | evaluate fuel file text =>
    cases read : i.readText file text m.definitions with
    | ok p => cases unread.symm.trans (entered?_evaluate.mpr ⟨p, read, rfl⟩)
    | error e =>
      have evaluated := bare.evaluate_eq fuel file text m
      rw [read] at evaluated
      exact ⟨e, m, run_bind_of_error evaluated _, .inl (Std.Refl.refl m)⟩
  | run fuel =>
    cases read : i.readSetup with
    | ok p => cases unread.symm.trans (entered?_run.mpr ⟨p, read, rfl⟩)
    | error e =>
      obtain ⟨_, failed, learnt⟩ := run_unread read fuel m
      exact ⟨e, _, run_bind_of_error failed _, .inr learnt⟩
  | parse | check | reset | bodyOf | shortForm | toC => cases executes

/-- A request that executes nothing gathers, on the machine at hand or on a new one. -/
theorem IsBare.gathers (bare : i.IsBare) {request : Request}
    (unread : i.entered? m request = none) :
    i.Learns m (endState ((i.answer request).run m)) ∨
      i.Learns (i.reset m) (endState ((i.answer request).run m)) := by
  by_cases executes : request.executes = true
  · obtain ⟨e, u, failed, learnt⟩ := bare.unread executes unread
    rw [failed]
    exact learnt
  · by_cases anew : request = .reset
    · subst anew
      exact .inr (Std.Refl.refl _)
    · exact .inl (learns_answer (by simpa using executes) anew m)

theorem parsed_of_entered {request : Request} {start : Machine}
    (entered : i.entered? m request = some start) :
    ∃ u p, (u = m ∨ u = i.reset m) ∧ start = u.entering p ∧
      ∃ (source : Source) (tokens : List Token),
        (source.parse tokens).run u.definitions = .ok p p.definitions := by
  cases request with
  | evaluate fuel file text =>
    obtain ⟨p, read, rfl⟩ := entered?_evaluate.mp entered
    obtain ⟨tokens, -, parsed⟩ := exists_parse_of_readText read
    exact ⟨m, p, .inl rfl, rfl, _, tokens, parsed⟩
  | run fuel =>
    obtain ⟨p, read, rfl⟩ := entered?_run.mp entered
    obtain ⟨tokens, -, parsed⟩ := exists_parse_of_readSetup read
    exact ⟨i.reset m, p, .inr rfl, rfl, _, tokens, parsed⟩
  | parse | check | reset | bodyOf | shortForm | toC => cases entered

theorem learns_holding {source : Source} {tokens : List Token} {p : Program}
    (parsed : (source.parse tokens).run m.definitions = .ok p p.definitions) :
    i.Learns m (m.holding p) := by
  have grown := (source.grows_parse tokens m.definitions).of_ok parsed
  exact ⟨⟨grown, fun _ _ found => found, fun _ _ found => .inl found, Nat.le_add_right _ _⟩, rfl,
    Nat.le_refl _⟩

/-- A program that is entered was read on the definitions at hand. -/
theorem grows_entering {source : Source} {tokens : List Token} {p : Program}
    (parsed : (source.parse tokens).run m.definitions = .ok p p.definitions) :
    i.Grows m (m.entering p) :=
  (learns_holding parsed).toGrows.trans (.of_sameTables ⟨rfl, rfl⟩ (Nat.le_refl _))

/-- A property of machines that no request destroys, nor any turn on the way. -/
structure Invariant (i : Interpreter) (P : Machine → Prop) : Prop where
  reset : ∀ m, P (i.reset m)
  learns : ∀ m m', i.Learns m m' → P m → P m'
  enters : ∀ m p (source : Source) tokens,
    (source.parse tokens).run m.definitions = .ok p p.definitions → P m → P (m.entering p)
  turn : ∀ m m', i.Turn m m' → P m → P m'

theorem IsBare.learns_of_fails (bare : i.IsBare) {fault : Fault} (fails : i.Fails m fault m') :
    i.Learns m m' := by
  obtain ⟨frame, rest, instruction, raised, -, -, refused, -⟩ := bare.fails_cases fails
  exact refused.learns

namespace Invariant

variable {P : Machine → Prop}

theorem turns (invariant : i.Invariant P) (turns : i.Turns n m m') (holds : P m) : P m' := by
  induction turns with
  | nil => exact holds
  | cons turn _ ih => exact ih (invariant.turn _ _ turn holds)

theorem entered (invariant : i.Invariant P) {request : Request} {start : Machine}
    (entered : i.entered? m request = some start) (holds : P m) : P start := by
  obtain ⟨u, p, same, rfl, source, tokens, parsed⟩ := parsed_of_entered entered
  apply invariant.enters u p source tokens parsed
  rcases same with rfl | rfl
  · exact holds
  · exact invariant.reset m

theorem answer (invariant : i.Invariant P) (bare : i.IsBare)
    (accepting : ∀ taken byte, i.setup.refuses taken byte = none) (request : Request)
    (holds : P m) : P (endState ((i.answer request).run m)) := by
  cases entered : i.entered? m request with
  | none =>
    rcases bare.gathers entered with learns | learns
    · exact invariant.learns _ _ learns holds
    · exact invariant.learns _ _ learns (invariant.reset m)
  | some start =>
    have here := invariant.entered entered holds
    rcases bare.executes accepting entered with
      ⟨answer, ending, n, u, ran, -, turns, -⟩ | ⟨fault, u, n, m', ran, turns, fails⟩
    · rw [ran]
      exact invariant.turns turns here
    · rw [ran]
      exact invariant.learns _ _ (bare.learns_of_fails fails) (invariant.turns turns here)

/-- It holds after any requests. Where the fuel of the last one ends in the midst of an execution,
that is between two of its steps. -/
theorem after (invariant : i.Invariant P) (bare : i.IsBare)
    (accepting : ∀ taken byte, i.setup.refuses taken byte = none) (history : List Request)
    (input : List Int) : P (i.after history (i.start input)) := by
  have kept (m : Machine) (holds : P m) : P (i.after history m) := by
    induction history generalizing m with
    | nil => exact holds
    | cons request rest ih => exact ih _ (invariant.answer bare accepting request holds)
  exact kept _ (invariant.reset (i.start input))

end Invariant

end Interpreter
end TapeLang
