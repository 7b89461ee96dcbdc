import TapeLang.Proofs.Course
import TapeLang.Proofs.Program.LoopCheck

/-! A check one call at a time. The calls that were met wait on a stack, each with its level, the
number of calls that lead to it, and what a body calls goes on top of it. What was counted before
bounds nothing, since arguments may grow from call to call, but no call behind the limit is opened:
the check comes to an end, as the count level by level does. -/
namespace TapeLang.LoopCheck

/-- The calls that wait, the next one first, and what was counted so far. -/
structure Worklist where
  waiting : List ((Definition × List Text) × Nat)
  tally : Tally
  dictionary : Dictionary

namespace Worklist

/-- Takes one call from the list. -/
def step (limit : Int) : Worklist → Course Worklist (EStateM.Result SourceError Dictionary Nat)
  | ⟨[], tally, dictionary⟩ => .ended (.ok tally.loops dictionary)
  | ⟨((d, args), level) :: rest, tally, dictionary⟩ =>
    if tally.seen.contains (d.callWith args) ∨ limit < level then .going ⟨rest, tally, dictionary⟩
    else match (d.ownLoops args limit).run dictionary with
      | .error e dictionary => .ended (.error e dictionary)
      | .ok (loops, calls) dictionary =>
        .going ⟨calls.map (·, level + 1) ++ rest,
          ⟨tally.loops + loops, tally.seen.insert (d.callWith args) ()⟩, dictionary⟩

/-- A check starts with the calls of the program itself. -/
def start (source : Source) (tokens : List Token) (dictionary : Dictionary) :
    Course Worklist (EStateM.Result SourceError Dictionary Nat) :=
  match (source.ownLoops tokens).run dictionary with
  | .error e dictionary => .ended (.error e dictionary)
  | .ok (loops, calls) dictionary => .going ⟨calls.map (·, 1), ⟨loops, {}⟩, dictionary⟩

/-- Where a check stands when the calls of one list were counted. -/
def after (rest : List ((Definition × List Text) × Nat)) :
    EStateM.Result SourceError Dictionary Tally →
    Course Worklist (EStateM.Result SourceError Dictionary Nat)
  | .error e dictionary => .ended (.error e dictionary)
  | .ok tally dictionary => .going ⟨rest, tally, dictionary⟩

open StateTransition Course

/-- The calls of one list are counted in finitely many steps, with all that they call within the
levels that are left. -/
theorem reaches_after {limit : Int} {budget level : Nat} (positive : 0 < level)
    (levels : level + budget = limit.toNat + 1) (calls : List (Definition × List Text))
    (rest : List ((Definition × List Text) × Nat)) (tally : Tally) (dictionary : Dictionary) :
    Reaches (next (step limit)) (going ⟨calls.map (·, level) ++ rest, tally, dictionary⟩)
      (after rest ((countWithin limit budget calls tally).run dictionary)) := by
  -- the budget drops inside a call, the calls become fewer beside it
  induction budget generalizing level calls rest tally dictionary with
  | zero =>
    have beyond : limit < level := by omega
    have left : countWithin limit 0 calls tally = pure tally := by cases calls <;> rfl
    rw [left]
    clear left
    induction calls with
    | nil => exact .refl
    | cons c calls ih => exact reaches_of_step (if_pos (.inr beyond)) ih
  | succ budget ihInner =>
    have within : ¬ limit < level := by omega
    induction calls generalizing tally dictionary with
    | nil => exact .refl
    | cons c calls ihRest =>
      obtain ⟨d, args⟩ := c
      cases seen : tally.seen.contains (d.callWith args) with
      | true =>
        rw [countWithin, countCalls_cons_known seen]
        exact reaches_of_step (if_pos (.inl seen)) (ihRest tally dictionary)
      | false =>
        have opened : ¬ (tally.seen.contains (d.callWith args) = true ∨ limit < level) := by
          simp [seen, within]
        rw [countWithin, countCalls_cons_fresh seen]
        cases counted : (d.ownLoops args limit).run dictionary with
        | error e left =>
          rw [run_bind_of_error counted]
          apply reaches_step
          simp [step, opened, counted, after]
        | ok found left =>
          obtain ⟨loops, inner⟩ := found
          rw [run_bind_of_ok counted]
          have first : step limit
              ⟨((d, args) :: calls).map (·, level) ++ rest, tally, dictionary⟩ =
                going ⟨inner.map (·, level + 1) ++ (calls.map (·, level) ++ rest),
                  ⟨tally.loops + loops, tally.seen.insert (d.callWith args) ()⟩, left⟩ := by
            simp [step, opened, counted]
          refine reaches_of_step first ((ihInner (by omega) (by omega) inner _ _ left).trans ?_)
          dsimp only
          rw [EStateM.run_bind]
          cases (countWithin limit budget inner
              ⟨tally.loops + loops, tally.seen.insert (d.callWith args) ()⟩).run left with
          | error e stopped => exact .refl
          | ok tally dictionary => exact ihRest tally dictionary

/-- Every check ends, and its result is that of the count level by level. -/
theorem run_mem_eval (source : Source) (tokens : List Token) (dictionary : Dictionary) :
    ended ((source.check tokens).run dictionary) ∈
      eval (next (step source.limit)) (start source tokens dictionary) := by
  rw [mem_eval_iff, Source.check, EStateM.run_bind, start]
  cases counted : (source.ownLoops tokens).run dictionary with
  | error e left => exact .refl
  | ok found left =>
    obtain ⟨loops, calls⟩ := found
    have emptied := reaches_after Nat.one_pos (Nat.add_comm 1 source.limit.toNat) calls []
      ⟨loops, {}⟩ left
    rw [List.append_nil] at emptied
    refine emptied.trans ?_
    dsimp only
    rw [EStateM.run_bind]
    cases (countWithin source.limit source.limit.toNat calls ⟨loops, {}⟩).run left with
    | error e stopped => exact .refl
    | ok tally stopped => exact reaches_step rfl

end Worklist
end TapeLang.LoopCheck
