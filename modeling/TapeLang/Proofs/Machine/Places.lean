import TapeLang.Proofs.Machine.Closure
import TapeLang.Proofs.Program.Places

/-! Runs do not look at places. Two machines that differ only in where their instructions and
definitions stand stay alike, step for step, and show the same from outside; their errors tell
the same, places aside. Without calls the definitions may be any. -/
namespace TapeLang

/-- A fault without its place. -/
def Fault.unplaced : Fault → Fault
  | .source e => .source { e with location := none }
  | .runtime e => .runtime { e with location := none }
  | .foreign message => .foreign message

/-- Faults of the program that differ at most in their places. -/
structure Fault.Alike (f g : Fault) : Prop where
  unplaced : f.unplaced = g.unplaced
  inside : ∀ message, f ≠ .foreign message

theorem Fault.Alike.placed {f g : Fault} (alike : f.Alike g) (op : Operation)
    (location location' : Option Location) (w : World) :
    (f.placed op location w).Alike (g.placed op location' w) := by
  obtain ⟨same, inside⟩ := alike
  cases f with
  | foreign message => exact absurd rfl (inside message)
  | source e =>
    cases g with
    | source e' => exact ⟨same, nofun⟩
    | runtime | foreign => cases same
  | runtime e =>
    cases g with
    | source | foreign => cases same
    | runtime e' =>
      refine ⟨?_, nofun⟩
      simp only [Fault.unplaced, Fault.runtime.injEq, RuntimeError.mk.injEq] at same
      simp only [Fault.placed, Fault.unplaced, RuntimeError.annotate, same]

/-- Code that differs at most in places, with calls only where they may occur. -/
structure CodeAlike (calling : Prop) (a b : Array Instruction) : Prop where
  unplaced : a.map Instruction.unplaced = b.map Instruction.unplaced
  calls : callsOf a ≠ [] → calling

structure Frame.Alike (calling : Prop) (f g : Frame) : Prop where
  name : f.name = g.name
  number : f.number = g.number
  cursor : f.cursor = g.cursor
  code : CodeAlike calling f.code g.code

/-- Machines that differ at most in places and, where no call may occur, in definitions. -/
structure Machine.Alike (calling : Prop) (m n : Machine) : Prop where
  world : m.world = n.world
  frameCount : m.frameCount = n.frameCount
  recorded : m.recorded = n.recorded
  trace : m.trace.map StepRecord.line = n.trace.map StepRecord.line
  stack : List.Forall₂ (Frame.Alike calling) m.stack n.stack
  definitions : calling → m.definitions.Alike n.definitions
  compiled : calling → ∀ c,
    (m.compiled.find? c).map (·.instructions) = (n.compiled.find? c).map (·.instructions)

namespace Machine.Alike

variable {calling : Prop} {m n : Machine}

theorem tape (alike : m.Alike calling n) : m.tape = n.tape := congrArg World.tape alike.world

theorem counters (alike : m.Alike calling n) : m.counters = n.counters :=
  congrArg World.counters alike.world

theorem setWorld (alike : m.Alike calling n) (w : World) :
    (m.setWorld w).Alike calling (n.setWorld w) :=
  ⟨rfl, alike.frameCount, alike.recorded, alike.trace, alike.stack, alike.definitions,
    alike.compiled⟩

end Machine.Alike

namespace Interpreter

variable {i : Interpreter} {calling : Prop} {m n : Machine}

/-- How work on two machines that are alike ends. -/
abbrev EndsAlike {α β : Type} (calling : Prop) (V : α → β → Prop) :
    EStateM.Result Fault Machine α → EStateM.Result Fault Machine β → Prop :=
  Matched V Fault.Alike (Machine.Alike calling)

/-- An action fails where it breaks a bound or where the sink refuses a byte. -/
theorem act_fails {refuses : Array UInt8 → UInt8 → Option Text} {w u : World} {action : Action}
    {fault : Fault} (failed : w.act refuses action = .error fault u) :
    (∃ reason, fault = .runtime { fault := reason } ∧ reason.kind ∈ [.tapeBound, .valueBound]) ∨
      ∃ taken byte message, refuses taken byte = some message ∧ fault = .foreign message := by
  have onTape {v w : World} {count : Counters → Counters} {worked : Except TapeFault Tape}
      (failed : w.takeTape count worked = .error fault v) :
      ∃ reason, fault = .runtime { fault := reason } ∧
        reason.kind ∈ [.tapeBound, .valueBound] := by
    cases worked with
    | ok tape => cases failed
    | error reason =>
      cases failed
      refine ⟨.tape reason, rfl, ?_⟩
      cases reason <;> simp [RuntimeFault.kind]
  have atEnd : ∃ reason, World.endOfInput = .runtime { fault := reason } ∧
      reason.kind ∈ [.tapeBound, .valueBound] := ⟨.endOfInput, rfl, by decide⟩
  cases action with
  | increment | decrement | left | right =>
    simp only [World.act] at failed
    exact .inl (onTape failed)
  | output =>
    simp only [World.act] at failed
    cases refused : refuses w.output w.tape.get with
    | none => rw [refused] at failed; cases failed
    | some message =>
      rw [refused] at failed
      cases failed
      exact .inr ⟨_, _, message, refused, rfl⟩
  | input =>
    simp only [World.act] at failed
    cases given : w.input with
    | nil =>
      rw [given] at failed
      cases failed
      exact .inl atEnd
    | cons value input =>
      rw [given] at failed
      dsimp only at failed
      by_cases negative : value < 0
      · rw [if_pos negative] at failed
        cases failed
        exact .inl atEnd
      · rw [if_neg negative] at failed
        exact .inl (onTape failed)

/-- With a sink that takes every byte, an action fails only where it breaks a bound. -/
theorem act_violates {refuses : Array UInt8 → UInt8 → Option Text}
    (accepting : ∀ taken byte, refuses taken byte = none) {w u : World} {action : Action}
    {fault : Fault} (failed : w.act refuses action = .error fault u) :
    ∃ reason, fault = .runtime { fault := reason } ∧
      reason.kind ∈ [.tapeBound, .valueBound] := by
  rcases act_fails failed with violates | ⟨taken, byte, message, refused, -⟩
  · exact violates
  · cases refused.symm.trans (accepting taken byte)

theorem act_inside {refuses : Array UInt8 → UInt8 → Option Text}
    (accepting : ∀ taken byte, refuses taken byte = none) {w u : World} {action : Action}
    {fault : Fault} (failed : w.act refuses action = .error fault u) (message : Text) :
    fault ≠ .foreign message := by
  obtain ⟨reason, rfl, -⟩ := act_violates accepting failed
  exact Fault.noConfusion

theorem perform_alike (accepting : ∀ taken byte, i.setup.refuses taken byte = none)
    (alike : m.Alike calling n) (action : Action) :
    EndsAlike calling Eq ((i.perform action).run m) ((i.perform action).run n) := by
  rw [run_perform, run_perform, alike.world]
  cases acted : n.world.act i.setup.refuses action with
  | ok ended u => exact .ok rfl (alike.setWorld u)
  | error fault u => exact .error ⟨rfl, act_inside accepting acted⟩ (alike.setWorld u)

theorem declaring_alike {α β : Type} {V : α → β → Prop} {work : Declaring α} {work' : Declaring β}
    (alike : m.Alike calling n)
    (matched : Matched V Eq Dictionary.Alike (work.run m.definitions) (work'.run n.definitions)) :
    EndsAlike calling V ((declaring work).run m) ((declaring work').run n) := by
  have world := alike.world
  rw [run_declaring, run_declaring]
  generalize work.run m.definitions = left, work'.run n.definitions = right at matched
  cases matched with
  | ok values dictionaries =>
    exact .ok values ⟨world, alike.frameCount, alike.recorded, alike.trace, alike.stack,
      fun _ => dictionaries, alike.compiled⟩
  | error errors dictionaries =>
    cases errors
    exact .error ⟨rfl, nofun⟩ ⟨world, alike.frameCount, alike.recorded, alike.trace, alike.stack,
      fun _ => dictionaries, alike.compiled⟩

/-- The body of a call is the same, compiled before or now. -/
theorem bodyOf_alike (alike : m.Alike calling n) (calls : calling) (name : Text)
    (args : List Text) :
    EndsAlike calling (fun p q => p.instructions = q.instructions) ((i.bodyOf name args).run m)
      ((i.bodyOf name args).run n) := by
  have known := alike.compiled calls ⟨name, args⟩
  unfold bodyOf
  rw [EStateM.run_bind, EStateM.run_bind, EStateM.run_get, EStateM.run_get]
  dsimp only
  cases left : m.compiled.find? ⟨name, args⟩ with
  | some p =>
    cases right : n.compiled.find? ⟨name, args⟩ with
    | none => rw [left, right] at known; cases known
    | some q =>
      rw [left, right] at known
      exact .ok (Option.some.inj known) alike
  | none =>
    cases right : n.compiled.find? ⟨name, args⟩ with
    | some q => rw [left, right] at known; cases known
    | none =>
      dsimp only
      rcases (alike.definitions calls).find? Definition.isLikeness_alike.name name with
        ⟨absent, absent'⟩ | ⟨d, e, found, found', same⟩
      · rw [absent, absent']
        exact .error ⟨rfl, nofun⟩ alike
      · rw [found, found', Option.filter_some, Option.filter_some,
          Definition.isLikeness_alike.kind same]
        by_cases form : d.kind = .functionForm
        · rw [if_pos (by simpa using form), if_pos (by simpa using form)]
          dsimp only
          have compiled := Definition.compile_alike same args i.setup.expansionLimit
            (alike.definitions calls)
          refine Matched.bind (declaring_alike alike compiled) ?_
          intro p q u v same inner
          refine .ok same.symm ⟨inner.world, inner.frameCount, inner.recorded, inner.trace,
            inner.stack, inner.definitions, ?_⟩
          intro _ c
          rw [CallTable.find?_insert, CallTable.find?_insert]
          split
          · rw [Option.map_some, Option.map_some, same]
          · exact inner.compiled calls c
        · rw [if_neg (by simpa using form), if_neg (by simpa using form)]
          exact .error ⟨rfl, nofun⟩ alike

/-- What a step does to the stack. -/
structure Effect.Alike (calling : Prop) (e f : Effect) : Prop where
  cursor : e.cursor = f.cursor
  callee : Option.Rel (Frame.Alike calling) e.callee f.callee

theorem openFrame_alike (alike : m.Alike calling n) (name : Text) {code code' : Array Instruction}
    (same : CodeAlike calling code code') (calledFrom calledFrom' : Option Location) :
    EndsAlike calling (Frame.Alike calling) ((openFrame name code calledFrom).run m)
      ((openFrame name code' calledFrom').run n) := by
  have numbers := alike.frameCount
  refine .ok ⟨rfl, numbers, rfl, same⟩ ⟨alike.world, ?_, alike.recorded, alike.trace, alike.stack,
    alike.definitions, alike.compiled⟩
  exact congrArg (· + 1) numbers

theorem countRead_alike (alike : m.Alike calling n) :
    EndsAlike calling Eq (countRead.run m) (countRead.run n) := by
  have world : m.world.read = n.world.read := congrArg World.read alike.world
  exact .ok rfl ⟨world, alike.frameCount, alike.recorded, alike.trace, alike.stack,
    alike.definitions, alike.compiled⟩

/-- Instructions that differ in places at most do the same. -/
theorem step_alike (accepting : ∀ taken byte, i.setup.refuses taken byte = none)
    (alike : m.Alike calling n) (cursor : Nat) {a b : Instruction}
    (same : a.unplaced = b.unplaced) (calls : a.op.isCall = true → calling) :
    EndsAlike calling (Effect.Alike calling) ((i.step cursor a).run m)
      ((i.step cursor b).run n) := by
  have op : a.op = b.op := congrArg (·.op) same
  have partner : a.partner = b.partner := congrArg (·.partner) same
  have effect (cursor : Nat) : Effect.Alike calling ⟨cursor, none⟩ ⟨cursor, none⟩ :=
    ⟨rfl, .none⟩
  unfold step
  rw [← op, ← partner]
  cases operation : a.op with
  | command c =>
    cases c with
    | act action =>
      dsimp only
      refine Matched.bind (perform_alike accepting alike action) ?_
      intro _ _ u v _ after
      exact .ok (effect _) after
    | jump | back =>
      refine Matched.bind (countRead_alike alike) ?_
      intro _ _ u v _ after
      rw [EStateM.run_bind, EStateM.run_bind, EStateM.run_get, EStateM.run_get]
      dsimp only
      rw [after.tape]
      exact .ok (effect _) after
  | call target args =>
    dsimp only
    rw [EStateM.run_bind, EStateM.run_bind, EStateM.run_get, EStateM.run_get]
    dsimp only
    rw [alike.stack.length_eq]
    by_cases full : i.setup.callLimit ≤ (n.stack.length : Int)
    · rw [if_pos full, if_pos full]
      exact .error ⟨rfl, nofun⟩ alike
    · rw [if_neg full, if_neg full]
      have may : calling := calls (by rw [operation]; rfl)
      refine Matched.bind (bodyOf_alike alike may target args) ?_
      intro p q u v body after
      refine Matched.bind (openFrame_alike after target ⟨congrArg _ body, fun _ => may⟩ _ _) ?_
      intro f g u v frame after
      exact .ok ⟨rfl, .some frame⟩ after

theorem recordOf_alike (alike : m.Alike calling n) {f g : Frame} (frames : f.Alike calling g)
    {a b : Instruction} (same : a.unplaced = b.unplaced) :
    (i.recordOf m f a).line = (i.recordOf n g b).line := by
  have op : a.op = b.op := congrArg (·.op) same
  simp only [recordOf, StepRecord.line, StepRecord.id, alike.recorded, frames.number,
    frames.cursor, op, alike.tape]

theorem complete_alike (alike : m.Alike calling n) {f g : Frame} (frames : f.Alike calling g)
    {rest rest' : List Frame} (others : List.Forall₂ (Frame.Alike calling) rest rest')
    {a b : Instruction} (same : a.unplaced = b.unplaced) {e e' : Effect}
    (effects : e.Alike calling e') :
    (i.complete f rest a e m).Alike calling (i.complete g rest' b e' n) := by
  have line := recordOf_alike (i := i) alike frames same
  have callees : List.Forall₂ (Frame.Alike calling) e.callee.toList e'.callee.toList := by
    obtain ⟨-, callees⟩ := effects
    generalize e.callee = callee, e'.callee = callee' at callees
    cases callees with
    | none => exact .nil
    | some frame => exact .cons frame .nil
  refine ⟨?_, alike.frameCount, ?_, ?_, ?_, alike.definitions, alike.compiled⟩
  · exact congrArg World.step alike.world
  · simp only [complete, alike.recorded]
  · simp only [complete]
    split
    · rw [Array.map_push, Array.map_push, alike.trace, line]
    · exact alike.trace
  · refine List.rel_append callees (.cons ?_ others)
    exact ⟨frames.name, frames.number, effects.cursor, frames.code⟩

/-- One instruction keeps machines alike. -/
theorem advance_alike (bare : i.IsBare)
    (accepting : ∀ taken byte, i.setup.refuses taken byte = none) (alike : m.Alike calling n)
    {f g : Frame} (frames : f.Alike calling g) {rest rest' : List Frame}
    (others : List.Forall₂ (Frame.Alike calling) rest rest') {a b : Instruction}
    (same : a.unplaced = b.unplaced) (calls : a.op.isCall = true → calling) :
    EndsAlike calling Eq ((i.advance f rest a).run m) ((i.advance g rest' b).run n) := by
  have step := step_alike accepting alike f.cursor same calls
  have op : a.op = b.op := congrArg (·.op) same
  rw [bare.run_advance, bare.run_advance, ← frames.cursor, ← op]
  generalize (i.step f.cursor a).run m = left, (i.step f.cursor b).run n = right at step
  cases step with
  | ok effects after => exact .ok rfl (complete_alike after frames others same effects)
  | error faults after =>
    dsimp only
    rw [after.world]
    exact .error (faults.placed _ _ _ _) after

/-- So does one turn of the innermost frame. -/
theorem turn_alike (bare : i.IsBare)
    (accepting : ∀ taken byte, i.setup.refuses taken byte = none) (alike : m.Alike calling n)
    {f g : Frame} (frames : f.Alike calling g) {rest rest' : List Frame}
    (others : List.Forall₂ (Frame.Alike calling) rest rest') :
    EndsAlike calling Eq ((i.turn f rest).run m) ((i.turn g rest').run n) := by
  have found : (f.code[f.cursor]?).map Instruction.unplaced =
      (g.code[g.cursor]?).map Instruction.unplaced := by
    rw [← Array.getElem?_map, ← Array.getElem?_map, frames.code.unplaced, frames.cursor]
  unfold turn
  cases here : f.code[f.cursor]? with
  | none =>
    rw [here, Option.map_none, eq_comm, Option.map_eq_none_iff] at found
    rw [found]
    exact .ok rfl ⟨alike.world, alike.frameCount, alike.recorded, alike.trace, others,
      alike.definitions, alike.compiled⟩
  | some a =>
    rw [here, Option.map_some, eq_comm, Option.map_eq_some_iff] at found
    obtain ⟨b, there, same⟩ := found
    rw [there]
    refine advance_alike bare accepting alike frames others same.symm ?_
    intro call
    apply frames.code.calls
    intro none
    have listed : a.op ∈ f.code.toList.map (·.op) :=
      List.mem_map.mpr ⟨a, (Array.mem_of_getElem? here).val, rfl⟩
    cases op : a.op with
    | command => rw [op] at call; cases call
    | call target args =>
      have called : ⟨target, args⟩ ∈ callsOf f.code :=
        List.mem_filterMap.mpr ⟨a.op, listed, by rw [op]; rfl⟩
      rw [none] at called
      cases called

/-- Executions of machines that are alike end alike. -/
theorem execute_alike (bare : i.IsBare)
    (accepting : ∀ taken byte, i.setup.refuses taken byte = none) (fuel : Nat)
    (alike : m.Alike calling n) :
    EndsAlike calling Eq ((i.execute fuel).run m) ((i.execute fuel).run n) := by
  induction fuel generalizing m n with
  | zero => exact .ok rfl alike
  | succ fuel ih =>
    have aligned := alike.stack
    cases left : m.stack with
    | nil =>
      rw [left] at aligned
      rw [run_execute_empty left, run_execute_empty (List.forall₂_nil_left_iff.mp aligned)]
      exact .ok rfl alike
    | cons f rest =>
      rw [left] at aligned
      obtain ⟨g, rest', frames, others, right⟩ := List.forall₂_cons_left_iff.mp aligned
      rw [run_execute_succ left, run_execute_succ right]
      have turned := turn_alike bare accepting alike frames others
      exact turned.bind fun _ _ _ _ _ after => ih after

end Interpreter
end TapeLang
