import TapeLang.Proofs.Machine.CallChain
import TapeLang.Proofs.Machine.Enduring
import TapeLang.Proofs.Machine.Safety

/-! Errors that are raised behind an instruction, by a rule that applies to its step or by a handler
of the event after it. By then the instruction is completed, and its frame has gone on. So the
traceback does not show the instruction that is processed but where the run would go on: the next
one of the frame, or the place of a call if the frame is done; behind a call, the first one of
the function, with the call above it. -/
namespace TapeLang

/-- Where an instruction leads from its place: to the next one, or to its partner, which is ahead of
an opening bracket and behind a closing one. -/
inductive Instruction.LeadsTo (instruction : Instruction) (cursor : Nat) : Nat → Prop where
  | next : LeadsTo instruction cursor (cursor + 1)
  | over {k} : instruction.op = .command .jump → instruction.partner = some k → cursor < k →
      LeadsTo instruction cursor (k + 1)
  | back {k} : instruction.op = .command .back → instruction.partner = some k → k < cursor →
      LeadsTo instruction cursor k

theorem Instruction.LeadsTo.ne {instruction : Instruction} {cursor next : Nat}
    (leads : instruction.LeadsTo cursor next) : next ≠ cursor := by
  cases leads <;> omega

/-- The brackets of a list of instructions have their partners in the right direction. -/
def BracketsDirected (code : Array Instruction) : Prop :=
  ∀ (j : Nat) (instruction : Instruction), code[j]? = some instruction →
    instruction.op = .command .jump ∨ instruction.op = .command .back →
      ∃ k, instruction.partner = some k ∧
        (instruction.op = .command .jump ∧ j < k ∨ instruction.op = .command .back ∧ k < j)

theorem Source.directed {source : Source} {tokens : List Token} {before after : Dictionary}
    {p : Program} (parsed : (source.parse tokens).run before = .ok p after) :
    BracketsDirected p.instructions := by
  intro j instruction found bracket
  obtain ⟨inside, -⟩ := Array.getElem?_eq_some_iff.mp found
  obtain ⟨k, -, partner, direction⟩ :=
    (laid_block parsed).exists_partner (Nat.zero_le j) inside found bracket
  exact ⟨k, partner, direction⟩

namespace Interpreter

variable {i : Interpreter} {m u left : Machine} {frame : Frame} {rest : List Frame}
variable {instruction : Instruction} {effect : Effect} {fault : Fault}

theorem CompiledBefore.directed {c : Call} {p : Program} {dictionary : Dictionary}
    (compiled : i.CompiledBefore c p dictionary) : BracketsDirected p.instructions := by
  obtain ⟨before, gave, -⟩ := compiled
  obtain ⟨source, tokens, parsed⟩ := Dictionary.exists_parse gave
  exact Source.directed parsed

theorem Stepped.leadsTo {cursor : Nat} (stepped : i.Stepped m cursor instruction effect u)
    {code : Array Instruction} (directed : BracketsDirected code)
    (found : code[cursor]? = some instruction) : instruction.LeadsTo cursor effect.cursor := by
  cases stepped with
  | act | call => exact .next
  | jump op =>
    obtain ⟨k, partner, ⟨-, ahead⟩ | ⟨closing, -⟩⟩ := directed cursor instruction found (.inl op)
    · dsimp only
      rw [partner, Option.getD_some]
      split
      · exact .over op partner ahead
      · exact .next
    · cases op.symm.trans closing
  | back op =>
    obtain ⟨k, partner, ⟨opening, -⟩ | ⟨-, behind⟩⟩ := directed cursor instruction found (.inr op)
    · cases op.symm.trans opening
    · dsimp only
      rw [partner, Option.getD_some]
      split
      · exact .next
      · exact .back op partner behind

/-- Whatever is executed in a session was read, so that its brackets are directed. -/
theorem enduring_directed (i : Interpreter) :
    i.Enduring fun m => i.Cached m ∧ ∀ frame ∈ m.stack, BracketsDirected frame.code := by
  refine ⟨⟨?_, ?_, ?_⟩, ?_, ?_⟩
  · rintro m u learns ⟨cached, directed⟩
    exact ⟨cached.grows learns.toGrows, learns.stack ▸ directed⟩
  · rintro m frame rest stack ⟨cached, directed⟩
    refine ⟨cached, fun other member => directed other ?_⟩
    rw [stack]
    exact List.mem_cons_of_mem _ member
  · rintro m frame rest instruction effect u stack found stepped ⟨cached, directed⟩
    have cached : i.Cached u := cached.grows stepped.learns.toGrows
    rw [stack] at directed
    refine ⟨cached, fun other member => ?_⟩
    rcases List.mem_append.mp member with opened | _ | ⟨_, behind⟩
    · cases stepped with
      | act | jump | back => cases opened
      | call _ _ ran =>
        cases List.mem_singleton.mp opened
        have compiled := find?_of_bodyOf ran
        exact (cached _ _ compiled).directed
    · exact directed frame List.mem_cons_self
    · exact directed other (List.mem_cons_of_mem _ behind)
  · intro m
    exact ⟨cached_reset m, nofun⟩
  · rintro m p source tokens before parsed ⟨cached, -⟩
    refine ⟨cached, ?_⟩
    rintro frame (_ | ⟨_, ⟨⟩⟩)
    exact Source.directed parsed

/-- The next instruction of the innermost frame is completed, which leaves a machine; then a rule
raises, or a handler of the event after the instruction. -/
structure RaisesBehind (i : Interpreter) (m : Machine) (frame : Frame) (rest : List Frame)
    (instruction : Instruction) (left : Machine) (fault : Fault) (u : Machine) : Prop where
  stack : m.stack = frame :: rest
  found : frame.code[frame.cursor]? = some instruction
  completed : i.attempt frame rest instruction m = some (.completed instruction left)
  raised : (do i.applyRules instruction; i.notify (.afterInstruction instruction) : Exec Unit).run
    left = .error fault u

namespace RaisesBehind

theorem exists_stepped (raises : i.RaisesBehind m frame rest instruction left fault u) :
    i.Fails m fault u ∧ ∃ v effect w, i.Stepped v frame.cursor instruction effect w ∧
      left = i.complete frame rest instruction effect w := by
  obtain ⟨stack, found, completed, raised⟩ := raises
  have advanced := i.advanced m frame rest instruction
  have turned : (i.turn frame rest).run m = (i.advance frame rest instruction).run m := by
    rw [turn, found]
  rw [completed] at advanced
  generalize (i.advance frame rest instruction).run m = ended at advanced turned
  cases advanced with
  | @completed v effect w _ stepped =>
    exact ⟨⟨frame, rest, stack, turned.trans raised⟩, v, effect, w, stepped, rfl⟩

/-- The rules and the handlers leave the machine as the instruction has left it, but for its tape
and its log. -/
theorem aside (raises : i.RaisesBehind m frame rest instruction left fault u) : left.Aside u :=
  (i.aside_behind instruction left).of_error raises.raised

end RaisesBehind

/-- What a traceback shows of a machine that has completed an instruction of a frame: the frame has
gone on, and a call stands above the first instruction of its function. -/
structure ShowsBeyond (m : Machine) (frame : Frame) (rest : List Frame)
    (instruction : Instruction) (passed : Frame) : Prop where
  same : passed = { frame with cursor := passed.cursor, lastRecord := passed.lastRecord }
  leads : instruction.LeadsTo frame.cursor passed.cursor
  command : instruction.op.isCall = false →
    Traceback.frames m =
      (Traceback.frameOf true passed :: rest.map (Traceback.frameOf false)).reverse
  call : ∀ target args, instruction.op = .call target args →
    ∃ p number, m.compiled.find? ⟨target, args⟩ = some p ∧
      let callee : Frame :=
        { name := target, code := p.instructions, number, calledFrom := instruction.location }
      Traceback.frames m = (Traceback.frameOf true callee :: passed.shownAt instruction ::
        rest.map (Traceback.frameOf false)).reverse

/-- What handlers do makes no difference. -/
theorem ShowsBeyond.aside {passed : Frame} (shows : ShowsBeyond m frame rest instruction passed)
    (aside : m.Aside u) : ShowsBeyond u frame rest instruction passed := by
  obtain ⟨_, _, rfl⟩ := aside
  exact ⟨shows.same, shows.leads, shows.command, shows.call⟩

theorem Stepped.showsBeyond (stepped : i.Stepped m frame.cursor instruction effect u)
    (directed : BracketsDirected frame.code) (found : frame.code[frame.cursor]? = some instruction)
    (rest : List Frame) :
    ∃ passed,
      ShowsBeyond (i.complete frame rest instruction effect u) frame rest instruction passed := by
  let completed := i.complete frame rest instruction effect u
  let passed : Frame :=
    { frame with
      cursor := effect.cursor
      lastRecord := if i.records then some (i.recordOf u frame instruction) else frame.lastRecord }
  have stack : completed.stack = effect.callee.toList ++ passed :: rest := rfl
  have leads : instruction.LeadsTo frame.cursor passed.cursor := stepped.leadsTo directed found
  refine ⟨passed, rfl, leads, ?_, ?_⟩
  · intro command
    cases stepped with
    | act | jump | back => exact Traceback.frames_cons stack
    | call op =>
      rw [op] at command
      cases command
  · intro target args op
    cases stepped with
    | act op' | jump op' | back op' => cases op.symm.trans op'
    | @call target' args' p v op' room ran =>
      cases op.symm.trans op'
      have called : passed.HasCalled instruction := ⟨found, by rw [op]; rfl⟩
      have compiled := find?_of_bodyOf ran
      refine ⟨p, v.frameCount, compiled, ?_⟩
      rw [← Traceback.frameOf_caller called, ← List.map_cons]
      exact Traceback.frames_cons stack

/-- Whatever was asked of a machine before and whatever its handlers do, an error that is raised
behind an instruction ends the request, and the traceback shows the machine that the instruction
has left: the frame has gone on from the instruction, and behind a call it is not the innermost
one. -/
theorem frames_of_raisedBehind (i : Interpreter) (history : List Request) (input : List Int)
    (request : Request) (start : Machine) (n : Nat) (m : Machine) (frame : Frame)
    (rest : List Frame) (instruction : Instruction) (left : Machine) (fault : Fault) (u : Machine)
    (began : i.beginning? (i.after history (i.start input)) request = some start)
    (turns : i.Turns n start m) (inTime : n < request.fuel)
    (raises : i.RaisesBehind m frame rest instruction left fault u) :
    ∃ reported last passed,
      (i.answer request).run (i.after history (i.start input)) = .error reported last ∧
      Traceback.frames last = Traceback.frames left ∧
      ShowsBeyond last frame rest instruction passed ∧ passed.cursor ≠ frame.cursor := by
  have enduring := i.enduring_directed
  obtain ⟨-, directed⟩ :=
    enduring.turns turns (enduring.beginning? began (enduring.after history input))
  obtain ⟨fails, v, effect, w, stepped, rfl⟩ := raises.exists_stepped
  have here : BracketsDirected frame.code := by
    apply directed
    rw [raises.stack]
    exact List.mem_cons_self
  obtain ⟨passed, shows⟩ := stepped.showsBeyond here raises.found rest
  obtain ⟨k, fuel⟩ := Nat.exists_eq_add_of_lt inTime
  have failed : (i.execute request.fuel).run start = .error fault u := by
    rw [fuel, Nat.add_assoc, turns.run_execute]
    exact fails.run_execute k
  obtain ⟨reported, last, answered, told⟩ := failed_of_beginning? began failed
  have aside := raises.aside.trans told
  have frames := Traceback.frames_congr (i.learns_of_aside _ _ aside).stack
  exact ⟨reported, last, passed, answered, frames, shows.aside aside, shows.leads.ne⟩

/-- A machine with a handler that objects to every instruction behind it. -/
def objecting (source : String) : Interpreter :=
  ⟨{ source := source.toList
     file := []
     services :=
      { hooks := Hooks.addHook {} .afterInstruction
          ⟨0, "e".toList, "h".toList, HandlerAction.reaction (.raise "no".toList)⟩ } },
    oneCell, {}⟩

/-- Where its run begins. -/
def objectingStart (source : String) : Option Machine :=
  (objecting source).beginning? ((objecting source).start []) (.run 9)

/-- The first instruction of its run. -/
def objectingFirst (source : String) : Option Instruction :=
  (objectingStart source).bind fun start =>
    start.stack.head?.bind fun frame => frame.code[frame.cursor]?

/-- It objects to the first instruction, if that is carried out. -/
theorem objecting_raisesBehind {source : String} {op : Operation}
    (first : (objectingFirst source).map (·.op) = some op)
    (completes : ((objectingStart source).bind fun start =>
      start.stack.head?.bind fun frame =>
        (objecting source).turnAttempt frame start.stack.tail start).map Attempt.isCompleted =
      some true) :
    ∃ start frame rest instruction left fault u, objectingStart source = some start ∧
      instruction.op = op ∧
      (objecting source).RaisesBehind start frame rest instruction left fault u := by
  rw [objectingFirst] at first
  cases began : objectingStart source with
  | none => rw [began] at first; cases first
  | some start =>
    rw [began] at first completes
    dsimp only [Option.bind] at first completes
    cases stack : start.stack with
    | nil => rw [stack] at first; cases first
    | cons frame rest =>
      rw [stack] at first completes
      dsimp only [List.head?, List.tail] at first completes
      cases found : frame.code[frame.cursor]? with
      | none => rw [found] at first; cases first
      | some instruction =>
        rw [found] at first
        rw [turnAttempt, found] at completes
        dsimp only [Option.bind] at completes
        have advanced := (objecting source).advanced start frame rest instruction
        cases attempted : (objecting source).attempt frame rest instruction start with
        | none => rw [attempted] at completes; cases completes
        | some attempt =>
          rw [attempted] at advanced completes
          generalize ((objecting source).advance frame rest instruction).run start = ended
            at advanced
          cases advanced with
          | refused => cases completes
          | completed =>
            exact ⟨start, frame, rest, instruction, _, _, _, rfl, Option.some.inj first, stack,
              found, attempted, rfl⟩

/-- The innermost frame need not show the instruction behind which an error was raised. -/
theorem innermost_of_raisedBehind : ¬ ∀ (i : Interpreter) (history : List Request)
    (input : List Int) (request : Request) (start : Machine) (n : Nat) (m : Machine)
    (frame : Frame) (rest : List Frame) (instruction : Instruction) (left : Machine)
    (fault : Fault) (u : Machine) (reported : Fault) (last : Machine),
    i.beginning? (i.after history (i.start input)) request = some start →
    i.Turns n start m → n < request.fuel →
    i.RaisesBehind m frame rest instruction left fault u →
    (i.answer request).run (i.after history (i.start input)) = .error reported last →
    (Traceback.frames last).getLast?.map (fun shown => (shown.name, shown.label, shown.location)) =
      some (frame.name, some instruction.op.label, instruction.location) := by
  intro shows
  let ended := ((objecting "+-").answer (.run 9)).run ((objecting "+-").start [])
  have evaluated :
      (objectingFirst "+-").map (·.op) = some (.command (.act .increment)) ∧
        ((objectingStart "+-").bind fun start => start.stack.head?.bind fun frame =>
          (objecting "+-").turnAttempt frame start.stack.tail start).map Attempt.isCompleted =
            some true ∧
        (failure? ended).isSome ∧
        (Traceback.frames (endState ended)).getLast?.map (·.label) =
          some (some "DECR".toList) := by
    decide +kernel
  obtain ⟨first, completes, failed, innermost⟩ := evaluated
  obtain ⟨reported, failed⟩ := Option.isSome_iff_exists.mp failed
  obtain ⟨start, frame, rest, instruction, left, fault, u, began, op, raises⟩ :=
    objecting_raisesBehind first completes
  have shown := shows (objecting "+-") [] [] (.run 9) start 0 start frame rest instruction left
    fault u reported _ began .nil (by decide) raises (failure?_eq_some_iff.mp failed)
  obtain ⟨top, last, same⟩ := Option.map_eq_some_iff.mp shown
  change (Traceback.frames (endState ended)).getLast? = some top at last
  simp only [Prod.mk.injEq] at same
  obtain ⟨-, label, -⟩ := same
  rw [last, Option.map_some, label, op] at innermost
  exact absurd innermost (by decide)

/-- Behind a call the function is shown, which has not begun yet. -/
theorem frames_of_objecting : ∃ start frame rest instruction left fault u reported last passed,
    objectingStart "§f = +
f" = some start ∧ instruction.op = .call "f".toList [] ∧
    (objecting "§f = +
f").RaisesBehind start frame rest instruction left fault u ∧
    ((objecting "§f = +
f").answer (.run 9)).run ((objecting "§f = +
f").start []) =
      .error reported last ∧
    (Traceback.frames last).map (·.label) = [some "f".toList, some "INCR".toList] ∧
    ShowsBeyond last frame rest instruction passed ∧ passed.cursor ≠ frame.cursor := by
  let ended := ((objecting "§f = +
f").answer (.run 9)).run ((objecting "§f = +
f").start [])
  have evaluated :
      (objectingFirst "§f = +
f").map (·.op) = some (.call "f".toList []) ∧
        ((objectingStart "§f = +
f").bind fun start => start.stack.head?.bind fun frame =>
          (objecting "§f = +
f").turnAttempt frame start.stack.tail start).map
            Attempt.isCompleted = some true ∧
        (Traceback.frames (endState ended)).map (·.label) =
          [some "f".toList, some "INCR".toList] := by
    decide +kernel
  obtain ⟨first, completes, labels⟩ := evaluated
  obtain ⟨start, frame, rest, instruction, left, fault, u, began, op, raises⟩ :=
    objecting_raisesBehind first completes
  obtain ⟨reported, last, passed, answered, -, shows, moved⟩ :=
    frames_of_raisedBehind (objecting "§f = +
f") [] [] (.run 9) start 0 start frame rest
      instruction left fault u began .nil (by decide) raises
  have same : endState ended = last := by
    change endState (((objecting "§f = +
f").answer (.run 9)).run _) = last
    rw [show ((objecting "§f = +
f").answer (.run 9)).run ((objecting "§f = +
f").start []) =
      .error reported last from answered]
    rfl
  rw [same] at labels
  exact ⟨start, frame, rest, instruction, left, fault, u, reported, last, passed, began, op, raises,
    answered, labels, shows, moved⟩

end Interpreter
end TapeLang
