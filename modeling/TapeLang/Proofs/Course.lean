import Mathlib.Computability.StateTransition

/-! Work that is done step by step, with no count of the steps to come: it goes on as long as a
step leads to a further state, and is over when one gives a result. -/
namespace TapeLang

/-- Where work stands. -/
inductive Course (α ρ : Type) where
  | going (state : α)
  | ended (result : ρ)

namespace Course

open StateTransition

variable {α ρ : Type} {step : α → Course α ρ} {s t : α} {c c' : Course α ρ} {r : ρ}

/-- One step, as long as the work goes on. -/
def next (step : α → Course α ρ) : Course α ρ → Option (Course α ρ)
  | going s => some (step s)
  | ended _ => none

theorem reaches_step (stepped : step s = c) : Reaches (next step) (going s) c :=
  .single (Option.mem_some_iff.mpr stepped)

/-- Finitely many steps, the first of which is known. -/
theorem reaches_of_step (stepped : step s = c) (reaches : Reaches (next step) c c') :
    Reaches (next step) (going s) c' :=
  (reaches_step stepped).trans reaches

/-- Work comes to an end where finitely many steps lead to a result. -/
theorem mem_eval_iff : ended r ∈ eval (next step) c ↔ Reaches (next step) c (ended r) :=
  mem_eval.trans ⟨And.left, fun reaches => ⟨reaches, rfl⟩⟩

/-- What every step keeps holds wherever the work goes. -/
theorem reaches_keeps {kept : α → Prop} (steps : ∀ s t, kept s → step s = going t → kept t)
    (start : ∀ s, c = going s → kept s) (reaches : Reaches (next step) c c') :
    ∀ t, c' = going t → kept t := by
  induction reaches with
  | refl => exact start
  | @tail middle last _ stepped ih =>
    rintro t rfl
    cases middle with
    | ended result => cases stepped
    | going s => exact steps s t (ih s rfl) (Option.some.inj stepped)

/-- A result is given in a step from a state that the work has come to. -/
theorem exists_last_step (reaches : Reaches (next step) (going s) (ended r)) :
    ∃ t, Reaches (next step) (going s) (going t) ∧ step t = ended r := by
  obtain unmoved | ⟨c, reaches, stepped⟩ := reaches.cases_tail
  · cases unmoved
  · cases c with
    | ended result => cases stepped
    | going t => exact ⟨t, reaches, Option.some.inj stepped⟩

end Course
end TapeLang
