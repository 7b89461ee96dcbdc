import TapeLang.Proofs.Machine.Ledger

/-! The books of a session. Every completed instruction is entered as one step and, unless it is a
call, under what it does to the tape. An instruction that is refused is not entered, with one
exception: a byte counts as read even if the sink refuses it. The books are opened anew by a fresh
start, and what is neither a fresh start nor an attempt leaves them alone. -/
namespace TapeLang

theorem countP_cons_eq_toNat {α : Type} (p : α → Bool) (a : α) (l : List α) :
    (a :: l).countP p = (p a).toNat + l.countP p := by
  cases holds : p a <;> simp [holds, Nat.add_comm]

namespace Operation

/-- Moves of the pointer. -/
def isMove : Operation → Bool
  | command (.act .left) | command (.act .right) => true
  | _ => false

/-- What reads the cell: the brackets and the output. -/
def isRead : Operation → Bool
  | command .jump | command .back | command (.act .output) => true
  | _ => false

def isWrite : Operation → Bool
  | command (.act .increment) | command (.act .decrement) | command (.act .input) => true
  | _ => false

def isOutput (op : Operation) : Bool := op = .command (.act .output)

/-- An operation is of exactly one kind. -/
theorem toNat_kinds (op : Operation) :
    op.isMove.toNat + op.isRead.toNat + op.isWrite.toNat + op.isCall.toNat = 1 := by
  cases op with
  | command c =>
    cases c with
    | act action => cases action <;> rfl
    | jump => rfl
    | back => rfl
  | call target args => rfl

end Operation

namespace Attempt

/-- The attempt completes an operation of a kind. -/
def completes (kind : Operation → Bool) : Attempt → Bool
  | completed instruction _ => kind instruction.op
  | refused .. => false

/-- The sink refuses the byte of an output. -/
def isRefusedOutput : Attempt → Bool
  | completed .. => false
  | refused instruction _ => instruction.op.isOutput

variable (attempts : List Attempt)

/-- The completed instructions of each kind make up all of them. -/
theorem countP_completes :
    attempts.countP isCompleted =
      attempts.countP (completes Operation.isMove) + attempts.countP (completes Operation.isRead) +
        attempts.countP (completes Operation.isWrite) +
        attempts.countP (completes Operation.isCall) := by
  induction attempts with
  | nil => rfl
  | cons first rest ih =>
    cases first with
    | refused instruction fault => simpa [countP_cons_eq_toNat, isCompleted, completes] using ih
    | completed instruction left =>
      have one := instruction.op.toNat_kinds
      simp only [countP_cons_eq_toNat, isCompleted, completes, Bool.toNat_true, ih]
      omega

end Attempt

namespace Counters

/-- The counters behind an operation that was carried out, before it counts as a step. -/
def behind (c : Counters) (op : Operation) : Counters :=
  { c with
    moves := c.moves + op.isMove.toNat, reads := c.reads + op.isRead.toNat
    writes := c.writes + op.isWrite.toNat }

/-- The counters behind an operation that was refused. -/
def behindRefused (c : Counters) (op : Operation) : Counters :=
  { c with reads := c.reads + op.isOutput.toNat }

/-- `Books attempts c c'`: the attempts take the counters from `c` to `c'`. -/
structure Books (attempts : List Attempt) (c c' : Counters) : Prop where
  steps : c'.steps = c.steps + attempts.countP Attempt.isCompleted
  moves : c'.moves = c.moves + attempts.countP (Attempt.completes Operation.isMove)
  reads : c'.reads = c.reads + attempts.countP (Attempt.completes Operation.isRead) +
    attempts.countP Attempt.isRefusedOutput
  writes : c'.writes = c.writes + attempts.countP (Attempt.completes Operation.isWrite)

variable {c c' c'' : Counters} {first second : List Attempt}

theorem Books.nil : Books [] c c := ⟨rfl, rfl, rfl, rfl⟩

theorem Books.append (one : Books first c c') (two : Books second c' c'') :
    Books (first ++ second) c c'' := by
  obtain ⟨steps, moves, reads, writes⟩ := one
  obtain ⟨steps', moves', reads', writes'⟩ := two
  constructor <;> simp only [List.countP_append] <;> omega

theorem books_completed (c : Counters) (instruction : Instruction) (left : Machine) :
    Books [.completed instruction left] c
      { c.behind instruction.op with steps := c.steps + 1 } := by
  constructor <;> simp [behind, Attempt.isCompleted, Attempt.completes,
    Attempt.isRefusedOutput, countP_cons_eq_toNat]

theorem books_refused (c : Counters) (instruction : Instruction) (fault : Fault) :
    Books [.refused instruction fault] c (c.behindRefused instruction.op) := by
  constructor <;>
    simp [behindRefused, Attempt.isCompleted, Attempt.completes,
    Attempt.isRefusedOutput, countP_cons_eq_toNat]

end Counters

open Counters (Books)

namespace World

/-- What an action counts. Only an output counts what is refused. -/
theorem counters_act (refuses : Array UInt8 → UInt8 → Option Text) (w : World) (action : Action) :
    match w.act refuses action with
    | .ok _ u => u.counters = w.counters.behind (.command (.act action))
    | .error _ u => u.counters = w.counters.behindRefused (.command (.act action)) := by
  unfold act
  cases action with
  | increment => cases w.tape.add 1 <;> rfl
  | decrement => cases w.tape.add (-1) <;> rfl
  | left => cases w.tape.move (-1) <;> rfl
  | right => cases w.tape.move 1 <;> rfl
  | output =>
    dsimp only
    cases refuses w.output w.tape.get <;> rfl
  | input =>
    dsimp only
    cases w.input with
    | nil => rfl
    | cons value input =>
      by_cases negative : value < 0
      · simp only [if_pos negative]
        rfl
      · simp only [if_neg negative]
        cases w.tape.set value <;> rfl

end World

namespace Interpreter

variable {i : Interpreter} {m u v : Machine}

theorem Stepped.counters {cursor : Nat} {instruction : Instruction} {effect : Effect}
    (stepped : i.Stepped m cursor instruction effect u) :
    u.counters = m.counters.behind instruction.op := by
  cases stepped with
  | @act action w op acted =>
    have counted := World.counters_act i.setup.refuses m.world action
    rw [acted] at counted
    rw [op]
    exact counted
  | jump op | back op =>
    rw [op]
    rfl
  | call op _ ran =>
    obtain ⟨_, _, rfl⟩ := (retabled_bodyOf _ _ m).of_ok ran
    rw [op]
    rfl

theorem Refused.counters {instruction : Instruction} {fault : Fault}
    (refused : i.Refused m instruction fault u) :
    u.counters = m.counters.behindRefused instruction.op := by
  cases refused with
  | @act action fault w op acted =>
    have counted := World.counters_act i.setup.refuses m.world action
    rw [acted] at counted
    rw [op]
    exact counted
  | depth op =>
    rw [op]
    rfl
  | body op _ ran =>
    obtain ⟨_, _, rfl⟩ := (retabled_bodyOf _ _ m).of_error ran
    rw [op]
    rfl

/-- What an instruction comes to is entered, whether handlers raise around it or not. -/
theorem Advanced.books {frame : Frame} {rest : List Frame} {instruction : Instruction}
    {attempt : Option Attempt} {ended : EStateM.Result Fault Machine Unit}
    (advanced : i.Advanced m frame rest instruction attempt ended) :
    Books attempt.toList m.counters (endState ended).counters := by
  cases advanced with
  | kept told =>
    obtain ⟨_, _, rfl⟩ := (aside_notify _ m).of_error told
    exact .nil
  | refused told refused =>
    obtain ⟨_, _, rfl⟩ := (aside_notify _ m).of_ok told
    simp only [endState, refused.counters]
    exact Counters.books_refused m.counters instruction _
  | @completed u effect v told stepped =>
    obtain ⟨_, _, rfl⟩ := (aside_notify _ m).of_ok told
    obtain ⟨_, _, same⟩ := i.aside_behind instruction (i.complete frame rest instruction effect v)
    rw [same]
    simp only [complete, stepped.counters]
    exact Counters.books_completed m.counters instruction _

theorem books_turn (frame : Frame) (rest : List Frame) (m : Machine) :
    Books (i.turnAttempt frame rest m).toList m.counters
      (endState ((i.turn frame rest).run m)).counters := by
  unfold turnAttempt turn
  cases frame.code[frame.cursor]? with
  | none => exact .nil
  | some instruction => exact (i.advanced m frame rest instruction).books

/-- Nothing is entered in the books. -/
def Idle (m u : Machine) : Prop := Books [] m.counters u.counters

theorem Idle.of_counters (same : u.counters = m.counters) : Idle m u := by
  unfold Idle
  rw [same]
  exact .nil

/-- Only attempts are entered. -/
theorem passive_idle (i : Interpreter) : i.Passive Idle where
  notified notice m := (aside_notify notice m).mono fun _ _ ⟨_, _, same⟩ => .of_counters (same ▸ rfl)
  tables _ _ _ := .of_counters rfl
  size _ _ := ⟨rfl, rfl, rfl, rfl⟩
  frames _ _ _ := .of_counters rfl

theorem account_books (i : Interpreter) :
    i.Account i.turnAttempt fun attempts m u => Books attempts m.counters u.counters where
  nil _ := .nil
  append := .append
  passive := i.passive_idle
  turn := i.books_turn

theorem attempts_eq_collected (i : Interpreter) (fuel : Nat) (m : Machine) :
    i.attempts fuel m = i.collected i.turnAttempt fuel m := by
  induction fuel generalizing m with
  | zero => rfl
  | succ fuel ih =>
    unfold attempts collected
    cases m.stack with
    | nil => rfl
    | cons frame rest =>
      dsimp only
      cases (i.turn frame rest).run m with
      | error fault u => rfl
      | ok _ u => exact congrArg _ (ih u)

/-- What is told behind an execution is not entered. -/
theorem books_conclude (fuel : Nat) (m : Machine) :
    Books (i.attempts fuel m) m.counters (endState ((i.conclude fuel).run m)).counters := by
  rw [attempts_eq_collected]
  exact i.account_books.conclude fuel m

/-- What a request attempts. -/
def attemptsOf (i : Interpreter) (request : Request) (m : Machine) : List Attempt :=
  match i.beginning? m request with
  | none => []
  | some start => i.attempts request.fuel start

/-- What a session attempts since its last fresh start, behind what was attempted before. -/
def attemptsSince (i : Interpreter) (before : List Attempt) :
    List Request → Machine → List Attempt
  | [], _ => before
  | request :: history, m =>
    i.attemptsSince ((if request.resets then [] else before) ++ i.attemptsOf request m) history
      (endState ((i.answer request).run m))

theorem attemptsOf_eq_collectedOf (i : Interpreter) (request : Request) (m : Machine) :
    i.attemptsOf request m = i.collectedOf i.turnAttempt request m := by
  unfold attemptsOf collectedOf
  cases i.beginning? m request with
  | none => rfl
  | some start => exact i.attempts_eq_collected request.fuel start

theorem attemptsSince_eq_collectedSince (i : Interpreter) (before : List Attempt)
    (history : List Request) (m : Machine) :
    i.attemptsSince before history m = i.collectedSince i.turnAttempt before history m := by
  induction history generalizing before m with
  | nil => rfl
  | cons request rest ih => rw [attemptsSince, collectedSince, ih, attemptsOf_eq_collectedOf]

/-- What a session attempts since its last fresh start is what its books tell of. -/
theorem books_after (history : List Request) (input : List Int) :
    Books (i.attemptsSince [] history (i.start input)) {}
      (i.after history (i.start input)).counters := by
  have new : (i.freshStart (i.start input) history (i.start input)).counters = {} :=
    freshStart_of_reset (P := fun m => m.counters = {}) (fun _ => rfl) rfl history _
  rw [attemptsSince_eq_collectedSince, ← new]
  exact i.account_books.after .nil history

/-- Whatever a session asks for, however its requests end and whatever sink and handlers do, the
counters of moves and writes tell how many instructions of these kinds were completed since the
last fresh start, and that of steps how many of any kind. That of reads tells how many reading
instructions were completed or, outputs, refused by the sink. So moves, reads, writes and calls make
up the steps exactly if the sink refused nothing. -/
theorem counters_after (i : Interpreter) (history : List Request) (input : List Int) :
    let c := (i.after history (i.start input)).counters
    let done := i.attemptsSince [] history (i.start input)
    let calls := done.countP (Attempt.completes Operation.isCall)
    let refused := done.countP Attempt.isRefusedOutput
    c.moves = done.countP (Attempt.completes Operation.isMove) ∧
    c.writes = done.countP (Attempt.completes Operation.isWrite) ∧
    c.reads = done.countP (Attempt.completes Operation.isRead) + refused ∧
    c.steps = done.countP Attempt.isCompleted ∧
    c.steps + refused = c.moves + c.reads + c.writes + calls ∧
    (c.steps = c.moves + c.reads + c.writes + calls ↔
      ∀ attempt ∈ done, attempt.isRefusedOutput = false) := by
  intro c done calls refused
  obtain ⟨steps, moves, reads, writes⟩ : Books done {} c :=
    books_after history input
  have kinds := Attempt.countP_completes done
  have none : refused = 0 ↔ ∀ attempt ∈ done, attempt.isRefusedOutput = false := by
    simp [refused, List.countP_eq_zero]
  simp only [Nat.zero_add] at steps moves reads writes
  have balance : c.steps + refused = c.moves + c.reads + c.writes + calls := by omega
  refine ⟨moves, writes, reads, steps, balance, ?_⟩
  rw [← none]
  omega

/-- A program that writes a byte, on a sink that takes none. -/
def fullSink : Interpreter :=
  ⟨{ source := ".".toList, file := [], refuses := fun _ _ => some "full".toList }, oneCell, {}⟩

/-- A refused byte is counted as read, though no instruction was completed. -/
theorem counters_fullSink :
    let c := (fullSink.after [.run 5] (fullSink.start [])).counters
    let done := fullSink.attemptsSince [] [.run 5] (fullSink.start [])
    ¬ c.reads = done.countP (Attempt.completes Operation.isRead) ∧
    ¬ c.steps = c.moves + c.reads + c.writes +
      done.countP (Attempt.completes Operation.isCall) := by
  decide +kernel

end Interpreter
end TapeLang
