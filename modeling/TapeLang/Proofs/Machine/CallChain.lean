import Mathlib.Data.List.Chain
import TapeLang.Machine.Traceback
import TapeLang.Proofs.Machine.Invariant

/-! The chain of calls. The frames of a machine without handlers are the outermost one and one for
each call in progress; a caller stands right behind the call that opened the next frame. Tracebacks
show these calls and the instruction that failed. -/
namespace TapeLang

/-- The instruction before the cursor. -/
def Frame.passed? (frame : Frame) : Option Instruction :=
  if frame.cursor = 0 then none else frame.code[frame.cursor - 1]?

/-- A frame runs the compiled body of the call that its caller has just passed. -/
def Frame.CalledBy (compiled : CallTable Program) (callee caller : Frame) : Prop :=
  ∃ call args p, caller.passed? = some call ∧ call.op = .call callee.name args ∧
    compiled.find? ⟨callee.name, args⟩ = some p ∧ callee.code = p.instructions

/-- The frames, from the innermost out, are a chain of calls: their numbers fall, and none was
given out twice. -/
structure Machine.Chained (limit : Int) (m : Machine) : Prop where
  outermost : ∀ frame ∈ m.stack.getLast?, frame.name = "<top-level>".toList
  depth : (m.stack.length : Int) ≤ max 1 limit
  calls : m.stack.IsChain (Frame.CalledBy m.compiled)
  numbers : m.stack.Pairwise fun inner outer => outer.number < inner.number
  fresh : ∀ frame ∈ m.stack, frame.number < m.frameCount

/-- What a traceback shows of a frame and its current instruction. -/
def Frame.shownAt (frame : Frame) (instruction : Instruction) : ShownFrame :=
  ⟨frame.name, instruction.location, some instruction.op.label, frame.lastRecord⟩

/-- Whether a frame has just passed an instruction, which is a call. -/
def Frame.HasCalled (caller : Frame) (call : Instruction) : Prop :=
  caller.passed? = some call ∧ call.op.isCall = true

/-- A machine stopped with a fault: the innermost frame stands at the instruction that failed, and
the traceback shows that one and the calls in progress, with their places. -/
def Machine.StoppedBy (m : Machine) (fault : Fault) : Prop :=
  ∃ frame rest instruction calls,
    m.stack = frame :: rest ∧ frame.code[frame.cursor]? = some instruction ∧
    List.Forall₂ Frame.HasCalled rest calls ∧
    Traceback.frames m =
      (List.zipWith Frame.shownAt (frame :: rest) (instruction :: calls)).reverse ∧
    ∀ e, fault = .runtime e →
      e.location = instruction.location ∧ e.rule = some instruction.op.kindName

namespace Machine.Chained

variable {limit : Int} {m m' : Machine} {frame : Frame} {rest : List Frame}

theorem of_empty (empty : m.stack = []) : m.Chained limit := by
  constructor <;> rw [empty]
  · exact nofun
  · exact Int.le_trans (Int.zero_le_ofNat 1) (Int.le_max_left 1 limit)
  · exact .nil
  · exact .nil
  · exact nofun

theorem of_singleton (stack : m.stack = [frame]) (top : frame.name = "<top-level>".toList)
    (number : frame.number < m.frameCount) : m.Chained limit := by
  constructor <;> rw [stack]
  · rintro _ ⟨⟩
    exact top
  · exact Int.le_max_left 1 limit
  · exact List.isChain_singleton frame
  · exact List.pairwise_singleton _ frame
  · rintro _ (_ | ⟨_, ⟨⟩⟩)
    exact number

/-- Only the frames matter, the bodies of their calls and the number of the next one. -/
theorem kept (chained : m.Chained limit) (stack : m'.stack = m.stack)
    (compiled : ∀ c p, m.compiled.find? c = some p → m'.compiled.find? c = some p)
    (frames : m.frameCount ≤ m'.frameCount) : m'.Chained limit := by
  constructor <;> rw [stack]
  · exact chained.outermost
  · exact chained.depth
  · apply chained.calls.imp
    rintro callee caller ⟨call, args, p, passed, op, found, code⟩
    exact ⟨call, args, p, passed, op, compiled _ _ found, code⟩
  · exact chained.numbers
  · intro frame member
    exact Nat.lt_of_lt_of_le (chained.fresh frame member) frames

/-- The innermost frame returns. -/
theorem returned (chained : m.Chained limit) (stack : m.stack = frame :: rest) :
    ({ m with stack := rest } : Machine).Chained limit := by
  obtain ⟨outermost, depth, calls, numbers, fresh⟩ := chained
  rw [stack] at outermost depth calls numbers fresh
  constructor
  · intro other last
    cases rest with
    | nil => cases last
    | cons caller outer => exact outermost other (by rwa [List.getLast?_cons_cons])
  · rw [List.length_cons] at depth
    dsimp only
    omega
  · exact calls.tail
  · exact numbers.of_cons
  · intro other member
    exact fresh other (List.mem_cons_of_mem _ member)

/-- The innermost frame moves its cursor. -/
theorem moved (chained : m.Chained limit) (stack : m.stack = frame :: rest) (cursor : Nat)
    (lastRecord : Option StepRecord) (stack' : m'.stack = { frame with cursor, lastRecord } :: rest)
    (compiled : m'.compiled = m.compiled) (frames : m'.frameCount = m.frameCount) :
    m'.Chained limit := by
  obtain ⟨outermost, depth, calls, numbers, fresh⟩ := chained
  rw [stack] at outermost depth calls numbers fresh
  constructor <;> rw [stack']
  · intro other last
    cases rest with
    | nil =>
      cases last
      exact outermost frame rfl
    | cons caller outer => exact outermost other last
  · exact depth
  · rw [compiled]
    cases rest with
    | nil => exact List.isChain_singleton _
    | cons caller outer =>
      obtain ⟨here, behind⟩ := List.isChain_cons_cons.mp calls
      exact List.isChain_cons_cons.mpr ⟨here, behind⟩
  · obtain ⟨here, behind⟩ := List.pairwise_cons.mp numbers
    exact List.pairwise_cons.mpr ⟨here, behind⟩
  · rw [frames]
    rintro other (_ | ⟨_, member⟩)
    · exact fresh frame List.mem_cons_self
    · exact fresh other (List.mem_cons_of_mem _ member)

/-- The innermost frame has passed a call, and the next one is opened. -/
theorem called (chained : m.Chained limit) (stack : m.stack = frame :: rest) {callee : Frame}
    (stack' : m'.stack = callee :: frame :: rest) (compiled : m'.compiled = m.compiled)
    (room : (m.stack.length : Int) < limit) (waits : callee.CalledBy m.compiled frame)
    (number : callee.number = m.frameCount) (frames : m'.frameCount = m.frameCount + 1) :
    m'.Chained limit := by
  obtain ⟨outermost, depth, calls, numbers, fresh⟩ := chained
  rw [stack] at outermost room calls numbers fresh
  constructor <;> rw [stack']
  · intro other last
    exact outermost other (by rwa [List.getLast?_cons_cons] at last)
  · rw [List.length_cons]
    omega
  · rw [compiled]
    exact List.isChain_cons_cons.mpr ⟨waits, calls⟩
  · refine List.pairwise_cons.mpr ⟨?_, numbers⟩
    intro other member
    rw [number]
    exact fresh other member
  · rw [frames]
    rintro other (_ | ⟨_, member⟩)
    · omega
    · exact Nat.lt_succ_of_lt (fresh other member)

end Machine.Chained

/-- Every frame of a chain but the innermost has passed a call. -/
theorem exists_calls_of_isChain {compiled : CallTable Program} {frame : Frame} {rest : List Frame}
    (chain : (frame :: rest).IsChain (Frame.CalledBy compiled)) :
    ∃ calls, List.Forall₂ Frame.HasCalled rest calls := by
  induction rest generalizing frame with
  | nil => exact ⟨[], .nil⟩
  | cons caller outer ih =>
    obtain ⟨⟨call, args, p, passed, op, -⟩, behind⟩ := List.isChain_cons_cons.mp chain
    obtain ⟨calls, others⟩ := ih behind
    refine ⟨call :: calls, .cons ⟨passed, ?_⟩ others⟩
    rw [op]
    rfl

theorem Traceback.frameOf_caller {caller : Frame} {call : Instruction}
    (passed : caller.HasCalled call) : frameOf false caller = caller.shownAt call := by
  have current : (if caller.cursor = 0 then none else caller.code[caller.cursor - 1]?) =
      some call := passed.1
  simp only [frameOf, Bool.false_eq_true, if_false, current]
  rfl

/-- Callers are shown at their calls. -/
theorem Traceback.map_frameOf_callers {callers : List Frame} {calls : List Instruction}
    (passed : List.Forall₂ Frame.HasCalled callers calls) :
    callers.map (frameOf false) = List.zipWith Frame.shownAt callers calls := by
  induction passed with
  | nil => rfl
  | cons here _ ih => rw [List.map_cons, List.zipWith_cons_cons, frameOf_caller here, ih]

theorem Traceback.frames_cons {m : Machine} {frame : Frame} {rest : List Frame}
    (stack : m.stack = frame :: rest) :
    frames m = (frameOf true frame :: rest.map (frameOf false)).reverse := by
  rw [frames, stack]

/-- A traceback shows the current instruction of each frame, the outermost first. -/
theorem Traceback.frames_eq {m : Machine} {frame : Frame} {rest : List Frame}
    {instruction : Instruction} {calls : List Instruction} (stack : m.stack = frame :: rest)
    (found : frame.code[frame.cursor]? = some instruction)
    (passed : List.Forall₂ Frame.HasCalled rest calls) :
    frames m = (List.zipWith Frame.shownAt (frame :: rest) (instruction :: calls)).reverse := by
  have innermost : frameOf true frame = frame.shownAt instruction := by
    simp [frameOf, Frame.shownAt, found]
  rw [frames_cons stack, map_frameOf_callers passed, innermost, List.zipWith_cons_cons]

/-- It depends on the frames alone. -/
theorem Traceback.frames_congr {m u : Machine} (same : u.stack = m.stack) :
    frames u = frames m := by
  rw [frames, frames, same]

namespace Interpreter

variable {i : Interpreter} {m m' u : Machine} {limit : Int}

open Machine (Chained)

theorem Learns.chained (learns : i.Learns m m') (chained : m.Chained limit) : m'.Chained limit :=
  chained.kept learns.stack learns.kept learns.frameCount

/-- No instruction breaks the chain. -/
theorem Stepped.chained {frame : Frame} {rest : List Frame} {instruction : Instruction}
    {effect : Effect} (stepped : i.Stepped m frame.cursor instruction effect u)
    (stack : m.stack = frame :: rest) (found : frame.code[frame.cursor]? = some instruction)
    (chained : m.Chained i.setup.callLimit) :
    (i.complete frame rest instruction effect u).Chained i.setup.callLimit := by
  have same : u.stack = frame :: rest := stepped.learns.stack.trans stack
  have before : u.Chained i.setup.callLimit := stepped.learns.chained chained
  cases stepped with
  | act | jump | back => exact before.moved same _ _ rfl rfl rfl
  | @call target args p v op room ran =>
    have learnt := (i.learns_bodyOf target args m).of_ok ran
    have opened : v.stack = frame :: rest := learnt.stack.trans stack
    -- the caller passes the call, then the frame of its body is put on top
    let passed : Frame :=
      { frame with
        cursor := frame.cursor + 1
        lastRecord := if i.records then some (i.recordOf { v with frameCount := v.frameCount + 1 }
          frame instruction) else frame.lastRecord }
    have standing : ({ v with stack := passed :: rest } : Machine).Chained i.setup.callLimit :=
      (learnt.chained chained).moved opened _ _ rfl rfl rfl
    have compiled := find?_of_bodyOf ran
    refine standing.called rfl rfl rfl ?_ ?_ rfl rfl
    · rw [stack] at room
      simp only [List.length_cons] at room ⊢
      omega
    · exact ⟨instruction, args, p, found, op, compiled, rfl⟩

/-- No turn breaks the chain. -/
theorem IsBare.turn_chained (bare : i.IsBare) (turn : i.Turn m m')
    (chained : m.Chained i.setup.callLimit) : m'.Chained i.setup.callLimit := by
  obtain ⟨frame, rest, stack, ⟨-, rfl⟩ | ⟨instruction, effect, u, found, stepped, rfl⟩⟩ :=
    bare.turn_cases turn
  · exact chained.returned stack
  · exact stepped.chained stack found chained

theorem invariant_chained (bare : i.IsBare) : i.Invariant (Chained i.setup.callLimit) := by
  constructor
  · intro m
    exact .of_empty rfl
  · intro m m' learns chained
    exact learns.chained chained
  · intro m p source tokens _ _
    exact .of_singleton rfl rfl (Nat.lt_succ_self _)
  · intro m m' turn chained
    exact bare.turn_chained turn chained

/-- An instruction does not say where it failed; if it names a rule, that is its own kind. -/
theorem Refused.unplaced (accepting : ∀ taken byte, i.setup.refuses taken byte = none)
    {instruction : Instruction} {e : RuntimeError}
    (refused : i.Refused m instruction (.runtime e) u) :
    e.location = none ∧ (e.rule = none ∨ e.rule = some instruction.op.kindName) := by
  cases refused with
  | act _ acted =>
    obtain ⟨reason, same, -⟩ := act_violates accepting acted
    cases same
    exact ⟨rfl, .inl rfl⟩
  | depth => exact ⟨rfl, .inl rfl⟩
  | body op _ ran =>
    rcases bodyOf_fails ran with ⟨-, -, same⟩ | ⟨_, _, -, -, same⟩
    · cases same
      exact ⟨rfl, .inr (by rw [op]; rfl)⟩
    · cases same

theorem IsBare.stoppedBy (bare : i.IsBare)
    (accepting : ∀ taken byte, i.setup.refuses taken byte = none) {fault : Fault}
    (fails : i.Fails m fault u) (chained : m.Chained limit) : u.StoppedBy fault := by
  obtain ⟨frame, rest, instruction, raised, stack, found, refused, rfl⟩ := bare.fails_cases fails
  have same : u.stack = frame :: rest := refused.learns.stack.trans stack
  have chain := chained.calls
  rw [stack] at chain
  obtain ⟨calls, passed⟩ := exists_calls_of_isChain chain
  refine ⟨frame, rest, instruction, calls, same, found, passed,
    Traceback.frames_eq same found passed, ?_⟩
  intro e placed
  cases raised with
  | source | foreign => cases placed
  | runtime r =>
    obtain ⟨nowhere, rule⟩ := refused.unplaced accepting
    cases placed
    constructor
    · simp [RuntimeError.annotate, nowhere]
    · rcases rule with none | own
      · simp [RuntimeError.annotate, none]
      · simp [RuntimeError.annotate, own]

/-- After any requests and between any two steps of an execution the frames are a chain of calls,
no deeper than the limit. An execution that finishes leaves no frame; one that fails is stopped at
the instruction whose turn failed. -/
theorem chained_after (bare : i.IsBare)
    (accepting : ∀ taken byte, i.setup.refuses taken byte = none) (history : List Request)
    (input : List Int) :
    let m := i.after history (i.start input)
    m.Chained i.setup.callLimit ∧
    ∀ request start, i.entered? m request = some start →
      (∀ n v, i.Turns n start v → v.Chained i.setup.callLimit) ∧
      (∀ answer u, (i.answer request).run m = .ok answer u → answer.ending? = some .finished →
        u.stack = []) ∧
      ∀ fault u, (i.answer request).run m = .error fault u →
        u.Chained i.setup.callLimit ∧ u.StoppedBy fault ∧
          ∃ n v, i.Turns n start v ∧ i.Fails v fault u ∧ u.stack = v.stack := by
  intro m
  have invariant := i.invariant_chained bare
  have holds := invariant.after bare accepting history input
  refine ⟨holds, ?_⟩
  intro request start entered
  have between (n : Nat) (v : Machine) (turns : i.Turns n start v) :
      v.Chained i.setup.callLimit := invariant.turns turns (invariant.entered entered holds)
  refine ⟨between, ?_, ?_⟩
  · intro answer u answered finished
    rcases bare.executes accepting entered with
      ⟨_, ending, _, _, ran, told, -, empty⟩ | ⟨_, _, _, _, ran, -⟩
    · cases answered.symm.trans ran
      cases finished.symm.trans told
      exact empty rfl
    · cases answered.symm.trans ran
  · intro fault u failed
    rcases bare.executes accepting entered with
      ⟨_, _, _, _, ran, -⟩ | ⟨_, _, n, v, ran, turns, fails⟩
    · cases failed.symm.trans ran
    · cases failed.symm.trans ran
      have before := between n v turns
      have learnt := bare.learns_of_fails fails
      exact ⟨learnt.chained before, bare.stoppedBy accepting fails before, n, v, turns, fails,
        learnt.stack⟩

/-- A function within a function moves off the tape. -/
def nested : Interpreter :=
  ⟨{ source := "§g = <\n§f = +g\n+f".toList, file := [], callLimit := 3 }, oneCell, {}⟩

/-- A text with a call that does not compile. -/
def openCall : List Request := [.evaluate 9 [] "§h = [\n+h".toList]

/-- Behind it a run stops in its third frame. -/
theorem chained_after_nested : ∃ m fault u,
    nested.after openCall (nested.start []) = m ∧
    m.Chained 3 ∧ m.stack.length = 1 ∧ (nested.answer (.run 9)).run m = .error fault u ∧
    u.stack.map (·.name) = ["g".toList, "f".toList, "<top-level>".toList] ∧
    (Traceback.frames u).map (·.label) =
      [some "f".toList, some "g".toList, some "LEFT".toList] ∧
    u.Chained 3 ∧ u.StoppedBy fault := by
  have evaluated :
      let m := nested.after openCall (nested.start [])
      let ended := (nested.answer (.run 9)).run m
      (m.stack.length, (nested.entered? m (.run 9)).isSome, (outcome ended).toOption) =
          (1, true, none) ∧
        (endState ended).stack.map (·.name) =
          ["g".toList, "f".toList, "<top-level>".toList] ∧
        (Traceback.frames (endState ended)).map (·.label) =
          [some "f".toList, some "g".toList, some "LEFT".toList] := by
    decide +kernel
  obtain ⟨chained, executed⟩ := chained_after (i := nested) ⟨fun _ => rfl, rfl⟩
    (fun _ _ => rfl) openCall []
  simp only [Prod.mk.injEq] at evaluated
  obtain ⟨⟨frames, entered, failed⟩, names, labels⟩ := evaluated
  obtain ⟨start, entered⟩ := Option.isSome_iff_exists.mp entered
  obtain ⟨-, -, stops⟩ := executed (.run 9) start entered
  cases ended : (nested.answer (.run 9)).run
      (nested.after openCall (nested.start [])) with
  | ok answer u =>
    rw [ended] at failed
    cases failed
  | error fault u =>
    rw [ended] at names labels
    obtain ⟨after, stopped, -⟩ := stops fault u ended
    exact ⟨_, fault, u, rfl, chained, frames, ended, names, labels, after, stopped⟩

end Interpreter
end TapeLang
