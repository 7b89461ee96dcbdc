import TapeLang.Proofs.Machine.Run

/-! Machines that stay within a closed list of calls. Where every call of the list compiles
without declaring, to a program that calls only within the list, no run declares anything. -/
namespace TapeLang

theorem Dictionary.compile_extends {dictionary left : Dictionary} {limit : Int} {c : Call}
    {p : Program} (compiled : dictionary.compile limit c = .ok p left) :
    left.Extends dictionary := by
  obtain ⟨source, tokens, parsed⟩ := exists_parse compiled
  obtain ⟨items, expands, -⟩ := Source.exists_spelled parsed
  exact expands.extends

/-- The calls in a list of instructions. -/
def callsOf (code : Array Instruction) : List Call :=
  (code.toList.map (·.op)).filterMap Operation.call?

namespace Interpreter

open Machine (SameTables)

variable {i : Interpreter} {dictionary : Dictionary} {calls : List Call}
variable {m m' u : Machine} {p : Program} {target : Text} {args : List Text}

theorem extends_of_bodyOf (ran : (i.bodyOf target args).run m = .ok p u) :
    u.definitions.Extends m.definitions := by
  rcases bodyOf_cases ran with ⟨-, rfl⟩ | ⟨-, left, compiled, rfl⟩
  · exact .refl _
  · exact Dictionary.compile_extends compiled

/-- A call that compiles without declaring is given that body. -/
theorem Settled.bodyOf_of_compile (settled : i.Settled dictionary m)
    (ran : (i.bodyOf target args).run m = .ok p u) {q : Program}
    (compiled : dictionary.compile i.setup.expansionLimit ⟨target, args⟩ = .ok q dictionary) :
    p = q ∧ i.Settled dictionary u := by
  have kept : u.definitions = dictionary := by
    rcases bodyOf_cases ran with ⟨-, rfl⟩ | ⟨-, left, again, rfl⟩
    · exact settled.definitions
    · rw [settled.definitions, compiled] at again
      cases again
      rfl
  obtain ⟨again, settled⟩ := settled.bodyOf ran kept
  rw [compiled] at again
  cases again
  exact ⟨rfl, settled⟩

/-- Every call of the list compiles, without declaring, to a program that calls within it. -/
def Closed (i : Interpreter) (dictionary : Dictionary) (calls : List Call) : Prop :=
  ∀ c ∈ calls, ∃ p, dictionary.compile i.setup.expansionLimit c = .ok p dictionary ∧
    p.callees ⊆ calls

/-- A settled machine whose frames call within a list. -/
structure Within (i : Interpreter) (dictionary : Dictionary) (calls : List Call) (m : Machine) :
    Prop extends Settled i dictionary m where
  frames : ∀ frame ∈ m.stack, callsOf frame.code ⊆ calls

/-- No turn leaves a closed list of calls. -/
theorem Within.turn (bare : i.IsBare) (closed : i.Closed dictionary calls)
    (within : i.Within dictionary calls m) (turn : i.Turn m m') :
    i.Within dictionary calls m' := by
  obtain ⟨frame, rest, stack, ⟨-, rfl⟩ | ⟨instruction, effect, u, found, stepped, rfl⟩⟩ :=
    bare.turn_cases turn
  · refine ⟨⟨within.definitions, within.compiled⟩, ?_⟩
    intro other member
    exact within.frames other (stack ▸ List.mem_cons_of_mem _ member)
  · have inFrame : callsOf frame.code ⊆ calls :=
      within.frames frame (stack ▸ List.mem_cons_self)
    have inRest (other : Frame) (member : other ∈ rest) : callsOf other.code ⊆ calls :=
      within.frames other (stack ▸ List.mem_cons_of_mem _ member)
    have called {target : Text} {args : List Text} (op : instruction.op = .call target args) :
        ⟨target, args⟩ ∈ calls :=
      inFrame (List.mem_filterMap.mpr ⟨.call target args,
        List.mem_map.mpr ⟨instruction, (Array.mem_of_getElem? found).val, op⟩, rfl⟩)
    cases stepped with
    | act | jump | back =>
      refine ⟨within.congr ⟨rfl, rfl⟩, ?_⟩
      rintro other (_ | ⟨_, member⟩)
      · exact inFrame
      · exact inRest other member
    | call op _ ran =>
      obtain ⟨q, compiled, inside⟩ := closed _ (called op)
      obtain ⟨rfl, settled⟩ := within.bodyOf_of_compile ran compiled
      refine ⟨settled.congr ⟨rfl, rfl⟩, ?_⟩
      rintro other (_ | ⟨_, _ | ⟨_, member⟩⟩)
      · exact inside
      · exact inFrame
      · exact inRest other member

/-- A machine within a closed list of calls declares nothing, however many turns it takes. -/
theorem Within.steady (bare : i.IsBare) (closed : i.Closed dictionary calls)
    (within : i.Within dictionary calls m) : i.Steady dictionary m := by
  refine ⟨?_, within.toSettled⟩
  intro n m' turns
  induction turns with
  | nil => exact within.definitions
  | cons turn _ ih => exact ih (within.turn bare closed turn)

theorem within_started {source : Source} {tokens : List Token} {before : Dictionary}
    (parsed : (source.parse tokens).run before = .ok p dictionary) (inside : p.callees ⊆ calls) :
    i.Within dictionary calls (i.started m p) := by
  refine ⟨⟨Source.definitions_eq parsed, nofun⟩, ?_⟩
  rintro frame (_ | ⟨_, ⟨⟩⟩)
  exact inside

end Interpreter
end TapeLang
