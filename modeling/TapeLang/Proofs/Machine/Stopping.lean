import TapeLang.Proofs.Machine.Accounts

/-! How an execution without handlers stops at an error. The instruction that is refused is the
last one attempted. Tape, frames, cursors and steps are those that the completed instructions left:
all that a refused one uses up is an input, the declarations in the body of its function, and the
count of a byte as read. -/
namespace TapeLang

/-- Behind its last instruction a frame is done. -/
def Frame.isDone (frame : Frame) : Bool := frame.code[frame.cursor]?.isNone

/-- The number of the step that a failure tells. -/
def Fault.step? : Fault → Option Nat
  | runtime e => e.step
  | source _ | foreign _ => none

namespace Machine

/-- The machine behind the returns from its frames that are done. They belong to the step that
finished these frames, since no instruction comes in between. -/
def unwound (m : Machine) : Machine := { m with stack := m.stack.dropWhile Frame.isDone }

theorem unwound_of_done {m : Machine} {frame : Frame} {rest : List Frame}
    (stack : m.stack = frame :: rest) (done : frame.code[frame.cursor]? = none) :
    { m with stack := rest }.unwound = m.unwound := by
  simp [unwound, stack, Frame.isDone, done]

theorem unwound_of_found {m : Machine} {frame : Frame} {rest : List Frame}
    {instruction : Instruction} (stack : m.stack = frame :: rest)
    (found : frame.code[frame.cursor]? = some instruction) : m.unwound = m := by
  rw [unwound, stack, List.dropWhile_cons_of_neg (by simp [Frame.isDone, found]), ← stack]

end Machine

namespace Attempt

/-- The machine that the last completed one of some attempts left. -/
def leftBy (start : Machine) : List Attempt → Machine
  | [] => start
  | completed _ left :: rest => leftBy left rest
  | refused .. :: rest => leftBy start rest

/-- A return before the attempts makes no difference behind them. -/
theorem unwound_leftBy {start : Machine} {frame : Frame} {rest : List Frame}
    (stack : start.stack = frame :: rest) (done : frame.code[frame.cursor]? = none)
    (attempts : List Attempt) :
    (leftBy { start with stack := rest } attempts).unwound = (leftBy start attempts).unwound := by
  induction attempts with
  | nil => exact Machine.unwound_of_done stack done
  | cons first later ih =>
    cases first with
    | completed instruction left => rfl
    | refused instruction fault => exact ih

end Attempt

namespace Interpreter

variable {i : Interpreter} {m u : Machine} {fault : Fault}

/-- `Stops start done instruction fault u`: behind what was done since the start, the machine `u`
still stands at the instruction that was refused. -/
structure Stops (start : Machine) (done : List Attempt) (instruction : Instruction)
    (fault : Fault) (u : Machine) : Prop where
  completed : ∀ attempt ∈ done, attempt.isCompleted = true
  kept : (Attempt.leftBy start done).unwound.Spent u
  standing : ∃ frame rest, u.stack = frame :: rest ∧ frame.code[frame.cursor]? = some instruction
  counted : ∀ e, fault = .runtime e → e.step = some u.counters.steps

namespace Stops

variable {start left : Machine} {done : List Attempt} {instruction : Instruction}

/-- The instruction at which a machine stands is refused. -/
theorem refused {frame : Frame} {rest : List Frame} (stack : start.stack = frame :: rest)
    (found : frame.code[frame.cursor]? = some instruction)
    (refused : i.Refused start instruction fault u) :
    Stops start [] instruction (fault.placed instruction.op instruction.location u.world) u where
  completed _ none := nomatch none
  kept := by
    rw [Attempt.leftBy, Machine.unwound_of_found stack found]
    exact refused.spent
  standing := ⟨frame, rest, refused.learns.stack.trans stack, found⟩
  counted e placed := by
    cases fault with
    | source | foreign => cases placed
    | runtime raised =>
      cases placed
      rfl

theorem cons (first : Instruction) (stops : Stops left done instruction fault u) :
    Stops start (.completed first left :: done) instruction fault u where
  completed := List.forall_mem_cons.mpr ⟨rfl, stops.completed⟩
  kept := stops.kept
  standing := stops.standing
  counted := stops.counted

theorem returned {frame : Frame} {rest : List Frame} (stack : start.stack = frame :: rest)
    (ended : frame.code[frame.cursor]? = none)
    (stops : Stops { start with stack := rest } done instruction fault u) :
    Stops start done instruction fault u :=
  { stops with kept := Attempt.unwound_leftBy stack ended done ▸ stops.kept }

/-- A run tells of what comes from outside of the program as an error of its own, at the same
step. -/
theorem reported (stops : Stops start done instruction fault u) :
    Stops start done instruction (fault.reported u.world) u where
  completed := stops.completed
  kept := stops.kept
  standing := stops.standing
  counted e told := by
    cases fault with
    | source | runtime => exact stops.counted e told
    | foreign message =>
      cases told
      rfl

end Stops

/-- An execution fails at the first instruction that is refused. The induction follows the turns:
one that returns is passed over, one that completes an instruction is entered. -/
theorem IsBare.execute_stops (bare : i.IsBare) {fuel : Nat}
    (failed : (i.execute fuel).run m = .error fault u) :
    ∃ done instruction, i.attempts fuel m = done ++ [.refused instruction fault] ∧
      Stops m done instruction fault u := by
  induction fuel generalizing m with
  | zero => cases failed
  | succ fuel ih =>
    unfold attempts
    cases stack : m.stack with
    | nil =>
      rw [run_execute_empty stack] at failed
      cases failed
    | cons frame rest =>
      have turned := bare.turned frame rest m
      rw [run_execute_succ stack] at failed
      dsimp only
      generalize i.turnAttempt frame rest m = attempt at turned ⊢
      cases ended : (i.turn frame rest).run m with
      | ok _ left =>
        rw [run_bind_of_ok ended] at failed
        obtain ⟨done, instruction, entered, stops⟩ := ih failed
        rw [ended] at turned
        dsimp only
        rw [entered]
        cases turned with
        | returned found => exact ⟨done, instruction, rfl, stops.returned stack found⟩
        | completed => exact ⟨_ :: done, instruction, rfl, stops.cons _⟩
      | error raised left =>
        rw [run_bind_of_error ended] at failed
        cases failed
        rw [ended] at turned
        cases turned with
        | refused found refused => exact ⟨[], _, rfl, .refused stack found refused⟩

/-- The failure of a request is the one of the execution of its program. A run reports it. -/
theorem IsBare.execute_of_answer (bare : i.IsBare) {request : Request} {start : Machine}
    (entered : i.entered? m request = some start)
    (failed : (i.answer request).run m = .error fault u) :
    ∃ raised, (i.execute request.fuel).run start = .error raised u ∧
      fault = if request.resets then raised.reported u.world else raised := by
  cases request with
  | evaluate fuel file text =>
    obtain ⟨p, read, rfl⟩ := entered?_evaluate.mp entered
    rw [answer, EStateM.run_bind, bare.evaluate_eq, read] at failed
    dsimp only at failed
    cases executed : (i.execute fuel).run (m.entering p) with
    | ok ending v => rw [executed] at failed; cases failed
    | error raised v =>
      rw [executed] at failed
      cases failed
      exact ⟨fault, executed, rfl⟩
  | run fuel =>
    obtain ⟨p, read, rfl⟩ := entered?_run.mp entered
    obtain ⟨tokens, lexed, parsed⟩ := exists_parse_of_readSetup read
    rw [answer, EStateM.run_bind, bare.run_run lexed parsed, started_eq_entering] at failed
    cases executed : (i.execute fuel).run ((i.reset m).entering p) with
    | ok ending v => rw [executed] at failed; cases failed
    | error raised v =>
      rw [executed] at failed
      cases failed
      exact ⟨raised, executed, rfl⟩
  | parse | check | reset | bodyOf | shortForm | toC => cases entered

/-- Where an execution without handlers fails, at any point of a session, one instruction was
refused, and no other was attempted behind it. The machine is the one that the last completed
instruction left, behind the returns from frames that were done: with its tape, its frames, their
cursors and numbers, and as many steps as instructions were completed since the last fresh start.
A runtime error tells this number. All other failures are of programs that cannot be read. -/
theorem stopped_after (bare : i.IsBare) (history : List Request) (input : List Int)
    {request : Request} (executes : request.executes = true)
    (failed : (i.answer request).run (i.after history (i.start input)) = .error fault u) :
    let m := i.after history (i.start input)
    let since := i.attemptsSince [] (history ++ [request]) (i.start input)
    u.counters.steps = since.countP Attempt.isCompleted ∧
    (i.entered? m request = none → ∃ e, fault = .source e) ∧
    ∀ start, i.entered? m request = some start → ∃ done instruction raised,
      i.attemptsOf request m = done ++ [.refused instruction raised] ∧
      (fault = if request.resets then raised.reported u.world else raised) ∧
      Stops start done instruction fault u := by
  intro m since
  have left : i.after (history ++ [request]) (i.start input) = u := by
    rw [after, List.foldl_append]
    change endState ((i.answer request).run m) = u
    rw [failed]
    rfl
  have steps : u.counters.steps = 0 + since.countP Attempt.isCompleted := by
    rw [← left]
    exact (books_after (history ++ [request]) input).steps
  refine ⟨by rw [steps, Nat.zero_add], ?_, ?_⟩
  · intro unread
    obtain ⟨e, _, ended, -⟩ := bare.unread executes unread
    cases ended.symm.trans failed
    exact ⟨e, rfl⟩
  · intro start entered
    obtain ⟨raised, executed, told⟩ := bare.execute_of_answer entered failed
    obtain ⟨done, instruction, attempted, stops⟩ := bare.execute_stops executed
    have attempts : i.attemptsOf request m = i.attempts request.fuel start := by
      rw [attemptsOf, bare.beginning?_eq, entered]
    refine ⟨done, instruction, raised, attempts.trans attempted, told, ?_⟩
    rw [told]
    cases request.resets with
    | true => exact stops.reported
    | false => exact stops

/-- A program that moves off the tape behind a call. -/
def leaving : Interpreter := ⟨{ source := "§f = +\nf<".toList, file := [] }, oneCell, {}⟩

/-- Behind a text of two steps, its run stops at the third instruction. The frame of the call was
done with the second one, and is left. -/
theorem stopped_after_leaving : ∃ m start u e done instruction raised,
    leaving.after [.evaluate 9 [] "+-".toList] (leaving.start []) = m ∧ m.counters.steps = 2 ∧
    leaving.entered? m (.run 9) = some start ∧
    (leaving.answer (.run 9)).run m = .error (.runtime e) u ∧
    leaving.attemptsOf (.run 9) m = done ++ [.refused instruction raised] ∧
    (Attempt.leftBy start (leaving.attemptsOf (.run 9) m)).stack.length = 2 ∧
    u.stack.length = 1 ∧ u.counters.steps = 2 ∧ e.step = some 2 ∧
    Stops start done instruction (.runtime e) u := by
  have evaluated :
      let m := leaving.after [.evaluate 9 [] "+-".toList] (leaving.start [])
      let ended := (leaving.answer (.run 9)).run m
      m.counters.steps = 2 ∧
      (leaving.entered? m (.run 9)).map (fun start =>
        (Attempt.leftBy start (leaving.attemptsOf (.run 9) m)).stack.length) = some 2 ∧
      (failure? ended).bind Fault.step? = some 2 ∧
      (endState ended).stack.length = 1 := by
    decide +kernel
  obtain ⟨before, frames, step, callers⟩ := evaluated
  obtain ⟨start, entered, frames⟩ := Option.map_eq_some_iff.mp frames
  cases ended : (leaving.answer (.run 9)).run
      (leaving.after [.evaluate 9 [] "+-".toList] (leaving.start [])) with
  | ok answer u => rw [ended] at step; cases step
  | error fault u =>
    rw [ended] at step callers
    obtain ⟨-, -, stopped⟩ := stopped_after ⟨fun _ => rfl, rfl⟩
      [.evaluate 9 [] "+-".toList] [] rfl ended
    obtain ⟨done, instruction, raised, attempted, -, stops⟩ := stopped start entered
    cases fault with
    | source | foreign => cases step
    | runtime e =>
      have told : e.step = some 2 := step
      have steps : u.counters.steps = 2 :=
        Option.some.inj ((stops.counted e rfl).symm.trans told)
      exact ⟨_, start, u, e, done, instruction, raised, rfl, before, entered, ended, attempted,
        frames, callers, steps, told, stops⟩

end Interpreter
end TapeLang
