import TapeLang.Proofs.Machine.CallChain
import TapeLang.Proofs.Machine.Enduring

/-! Whose frames a traceback shows, whatever handlers do. A request that fails while it executes
a program shows the frames of that execution: one on its program, and one for each call in
progress. A run that fails earlier shows none, since it starts afresh. A text that is read and fails
before it is executed, in a handler that is told of it, shows the frames that an earlier request
left on the machine. -/
namespace TapeLang

/-- The frames of a machine are those of one execution. The outermost, which has a number of its
own, is on the program; each other is on the body of the call that its caller has just passed. -/
structure Machine.Executes (limit : Int) (p : Program) (number : Nat) (m : Machine) : Prop
    extends m.Chained limit where
  root : ∀ frame ∈ m.stack.getLast?,
    frame.code = p.instructions ∧ frame.number = number ∧ frame.calledFrom = none

namespace Machine

variable {limit : Int} {m : Machine} {p : Program} {number : Nat}

/-- The calls in progress are shown with their places. -/
theorem Chained.shows (chained : m.Chained limit) {frame : Frame} {rest : List Frame}
    (stack : m.stack = frame :: rest) :
    ∃ calls, List.Forall₂ Frame.HasCalled rest calls ∧
      Traceback.frames m =
        (Traceback.frameOf true frame :: List.zipWith Frame.shownAt rest calls).reverse := by
  have calls := chained.calls
  rw [stack] at calls
  obtain ⟨calls, passed⟩ := exists_calls_of_isChain calls
  refine ⟨calls, passed, ?_⟩
  rw [Traceback.frames_cons stack, Traceback.map_frameOf_callers passed]

theorem Executes.number_le (executes : m.Executes limit p number) :
    ∀ frame ∈ m.stack, number ≤ frame.number := by
  have numbers := executes.numbers
  have root := executes.root
  generalize m.stack = stack at numbers root
  induction numbers with
  | nil => exact nofun
  | @cons inner outer below _ ih =>
    cases outer with
    | nil =>
      rintro _ (_ | ⟨_, ⟨⟩⟩)
      exact Nat.le_of_eq (root inner rfl).2.1.symm
    | cons caller others =>
      have behind := ih root
      rintro frame (_ | ⟨_, member⟩)
      · exact Nat.le_of_lt (Nat.lt_of_le_of_lt (behind caller List.mem_cons_self)
          (below caller List.mem_cons_self))
      · exact behind frame member

end Machine

namespace Interpreter

open Machine (Chained Executes)

variable {i : Interpreter} {m u start : Machine} {request : Request}

theorem enduring_chained (i : Interpreter) : i.Enduring (Chained i.setup.callLimit) where
  learns _ _ learns chained := learns.chained chained
  returned _ _ _ stack chained := chained.returned stack
  stepped _ _ _ _ _ _ stack found stepped chained := stepped.chained stack found chained
  reset _ := .of_empty rfl
  opens _ _ _ _ _ _ _ := .of_singleton rfl rfl (Nat.lt_succ_self _)

/-- An execution keeps the frame that it began with, until this returns. -/
theorem lasting_executes (i : Interpreter) (p : Program) (number : Nat) :
    i.Lasting (Executes i.setup.callLimit p number) := by
  constructor
  · intro m u learns executes
    refine ⟨learns.chained executes.toChained, ?_⟩
    rw [learns.stack]
    exact executes.root
  · intro m frame rest stack executes
    refine ⟨executes.toChained.returned stack, ?_⟩
    have root := executes.root
    rw [stack] at root
    intro other last
    cases rest with
    | nil => cases last
    | cons caller outer => exact root other (by rwa [List.getLast?_cons_cons])
  · intro m frame rest instruction effect u stack found stepped executes
    refine ⟨stepped.chained stack found executes.toChained, ?_⟩
    have root := executes.root
    rw [stack] at root
    intro other last
    rw [complete, List.getLast?_append_of_ne_nil _ (List.cons_ne_nil _ _)] at last
    cases rest with
    | nil =>
      cases last
      exact root frame rfl
    | cons caller outer => exact root other last

theorem executes_opened (m : Machine) (p : Program) (limit : Int) :
    (m.opened p).Executes limit p m.frameCount := by
  refine ⟨.of_singleton rfl rfl (Nat.lt_succ_self _), ?_⟩
  rintro frame ⟨⟩
  exact ⟨rfl, rfl, rfl⟩

/-- A request that begins an execution leaves no frame but those of it. -/
theorem executes_of_beginning? (began : i.beginning? m request = some start) :
    ∃ p, i.program? m request = some p ∧
      (endState ((i.answer request).run m)).Executes i.setup.callLimit p
        (i.outset request m).frameCount := by
  obtain ⟨p, read, u, aside, rfl⟩ := opens_of_beginning? began
  refine ⟨p, read, ?_⟩
  have lasting := i.lasting_executes p (i.outset request m).frameCount
  have kept : u.frameCount = (i.outset request m).frameCount := by
    obtain ⟨_, _, rfl⟩ := aside
    rfl
  have opened := executes_opened u p i.setup.callLimit
  rw [kept] at opened
  exact lasting.learns _ _ (learns_of_aside _ _ (aside_of_beginning? began))
    (lasting.execute request.fuel opened)

/-- A text on which no execution begins, though the error is one of a program at work, was read,
and one of the handlers that were told of it raised. -/
theorem told_of_beginning?_none {fuel : Nat} {file text : Text} {e : RuntimeError}
    (none : i.beginning? m (.evaluate fuel file text) = none)
    (failed : (i.answer (.evaluate fuel file text)).run m = .error (.runtime e) u) :
    ∃ p, i.readText file text m.definitions = .ok p ∧
      (i.notify (.programParsed p.size)).run (m.holding p) = .error (.runtime e) u := by
  have ended : (i.evaluate fuel file text).run m = .error (.runtime e) u := by
    cases evaluated : (i.evaluate fuel file text).run m with
    | ok made v => cases failed.symm.trans (run_bind_of_ok evaluated _)
    | error fault v =>
      cases failed.symm.trans (run_bind_of_error evaluated _)
      rfl
  rw [evaluate_eq] at ended
  cases read : i.readText file text m.definitions with
  | error e' => rw [read] at ended; cases ended
  | ok p =>
    refine ⟨p, rfl, ?_⟩
    rw [read] at ended
    dsimp only at ended
    cases told : (i.notify (.programParsed p.size)).run (m.holding p) with
    | ok _ v => cases none.symm.trans (beginning?_evaluate.mpr ⟨p, v, read, told, rfl⟩)
    | error fault v =>
      rw [told] at ended
      cases ended
      rfl

/-- A request has failed while its program was executed. The frames are those of the execution,
which are younger than any frame that was there before, and the traceback shows them: the innermost
one where it stands, the others at their calls. -/
structure FailedWithin (i : Interpreter) (m : Machine) (request : Request) (p : Program)
    (u : Machine) : Prop where
  executes : u.Executes i.setup.callLimit p (i.outset request m).frameCount
  shown : ∀ frame rest, u.stack = frame :: rest →
    ∃ calls, List.Forall₂ Frame.HasCalled rest calls ∧
      Traceback.frames u =
        (Traceback.frameOf true frame :: List.zipWith Frame.shownAt rest calls).reverse
  younger : request.resets = false →
    ∀ old ∈ m.stack, ∀ frame ∈ u.stack, old.number < frame.number

/-- A request has failed before anything was executed. A run shows no frame. A text shows the frames
that were left on the machine; if the error is a runtime error, a handler that was told of the text
has raised it. -/
inductive FailedBefore (i : Interpreter) (m : Machine) (fault : Fault) (u : Machine) :
    Request → Prop where
  | run {fuel} : u.stack = [] → Traceback.frames u = [] → FailedBefore i m fault u (.run fuel)
  | evaluate {fuel file text} : u.stack = m.stack → Traceback.frames u = Traceback.frames m →
      (∀ e, fault = .runtime e → ∃ p, i.readText file text m.definitions = .ok p ∧
        (i.notify (.programParsed p.size)).run (m.holding p) = .error fault u) →
      FailedBefore i m fault u (.evaluate fuel file text)

theorem failedWithin_of_beginning? {fault : Fault} (chained : m.Chained i.setup.callLimit)
    (began : i.beginning? m request = some start)
    (failed : (i.answer request).run m = .error fault u) :
    ∃ p, i.program? m request = some p ∧ i.FailedWithin m request p u := by
  obtain ⟨p, read, executes⟩ := executes_of_beginning? began
  rw [failed] at executes
  refine ⟨p, read, executes, fun frame rest stack => executes.toChained.shows stack, ?_⟩
  intro keeps old before frame member
  have same : i.outset request m = m := by
    rw [outset, keeps]
    rfl
  have above : m.frameCount ≤ frame.number := same ▸ executes.number_le frame member
  exact Nat.lt_of_lt_of_le (chained.fresh old before) above

theorem failedBefore_of_beginning?_none {fault : Fault} (executes : request.executes = true)
    (none : i.beginning? m request = none)
    (failed : (i.answer request).run m = .error fault u) : i.FailedBefore m fault u request := by
  have left := (learns_of_beginning?_none none).stack
  rw [failed] at left
  cases request with
  | evaluate fuel file text =>
    refine .evaluate left (Traceback.frames_congr left) ?_
    rintro e rfl
    exact told_of_beginning?_none none failed
  | run fuel =>
    have empty : u.stack = [] := left
    exact .run empty (by rw [Traceback.frames, empty])
  | parse | check | reset | bodyOf | shortForm | toC => cases executes

/-- Whatever was asked of a machine before, and whatever its handlers do, a request that fails while
its program is executed shows frames of this execution: of the program, and of the calls in
progress. A run that fails before shows no frame. A text that fails before shows what was left on
the machine. -/
theorem frames_of_failed (i : Interpreter) (history : List Request) (input : List Int)
    (request : Request) (fault : Fault) (u : Machine) (executes : request.executes = true)
    (failed : (i.answer request).run (i.after history (i.start input)) = .error fault u) :
    let m := i.after history (i.start input)
    (∃ start p, i.beginning? m request = some start ∧ i.program? m request = some p ∧
      i.FailedWithin m request p u) ∨
    i.beginning? m request = none ∧ i.FailedBefore m fault u request := by
  intro m
  have chained : m.Chained i.setup.callLimit := i.enduring_chained.after history input
  cases began : i.beginning? m request with
  | some start =>
    obtain ⟨p, read, within⟩ := failedWithin_of_beginning? chained began failed
    exact .inl ⟨start, p, rfl, read, within⟩
  | none => exact .inr ⟨rfl, failedBefore_of_beginning?_none executes began failed⟩

/-- A machine of two cells that moves its pointer to the right whenever a program is parsed. -/
def advancing : Interpreter :=
  ⟨{ file := []
     services :=
      { hooks := Hooks.addHook {} .programParsed
          ⟨0, "e".toList, "h".toList, HandlerAction.reaction (.movePointer 1)⟩ } },
    { oneCell with size := 2, visited_le := Nat.le_succ 1 }, {}⟩

/-- Its first text moves off the tape. The second is not executed, and shows the frame of the
first. -/
theorem frames_before_execution : ¬ ∀ (i : Interpreter) (input : List Int)
    (first second : Request) (fault : Fault) (e : RuntimeError) (u v : Machine),
    (i.answer first).run (i.start input) = .error fault u →
    (i.answer second).run u = .error (.runtime e) v → i.beginning? u second = none →
    ∀ frame ∈ v.stack, frame ∉ u.stack := by
  intro apart
  let first := (advancing.answer (.evaluate 9 [] ">".toList)).run (advancing.start [])
  let second := (advancing.answer (.evaluate 9 [] "+".toList)).run (endState first)
  have evaluated :
      (failure? first).isSome ∧ failure? second = some (.ofTape (.pointerOutside 2 2)) ∧
        advancing.beginning? (endState first) (.evaluate 9 [] "+".toList) = none ∧
        ∃ frame ∈ (endState second).stack, frame ∈ (endState first).stack := by
    decide +kernel
  obtain ⟨failed, raised, unbegun, frame, shown, before⟩ := evaluated
  obtain ⟨fault, failed⟩ := Option.isSome_iff_exists.mp failed
  exact apart advancing [] _ _ fault _ _ _ (failure?_eq_some_iff.mp failed)
    (failure?_eq_some_iff.mp raised) unbegun frame shown before

/-- The traceback of the second text is that of the first, which shows its execution. -/
theorem frames_of_advancing : ∃ p fault u v,
    (advancing.answer (.evaluate 9 [] ">".toList)).run (advancing.start []) = .error fault u ∧
    u.Executes 1000 p 0 ∧ u.stack.length = 1 ∧
    (advancing.answer (.evaluate 9 [] "+".toList)).run u =
      .error (.ofTape (.pointerOutside 2 2)) v ∧
    Traceback.frames v = Traceback.frames u := by
  let first := (advancing.answer (.evaluate 9 [] ">".toList)).run (advancing.start [])
  let second := (advancing.answer (.evaluate 9 [] "+".toList)).run (endState first)
  have evaluated :
      (failure? first).isSome ∧
        (advancing.beginning? (advancing.start []) (.evaluate 9 [] ">".toList)).isSome ∧
        (endState first).stack.length = 1 ∧
        failure? second = some (.ofTape (.pointerOutside 2 2)) ∧
        advancing.beginning? (endState first) (.evaluate 9 [] "+".toList) = none := by
    decide +kernel
  obtain ⟨failed, begun, one, raised, unbegun⟩ := evaluated
  obtain ⟨fault, failed⟩ := Option.isSome_iff_exists.mp failed
  have failed := failure?_eq_some_iff.mp failed
  have raised := failure?_eq_some_iff.mp raised
  have ofFirst := frames_of_failed advancing [] [] _ _ _ rfl failed
  have ofSecond := frames_of_failed advancing [.evaluate 9 [] ">".toList] [] _ _ _ rfl raised
  rcases ofFirst with ⟨start, p, -, -, within⟩ | ⟨none, -⟩
  · rcases ofSecond with ⟨start, _, began, -⟩ | ⟨-, before⟩
    · cases unbegun.symm.trans began
    · cases before with
      | evaluate _ frames =>
        exact ⟨p, fault, _, _, failed, within.executes, one, raised, frames⟩
  · rw [after, List.foldl_nil] at none
    rw [none] at begun
    cases begun

end Interpreter
end TapeLang
