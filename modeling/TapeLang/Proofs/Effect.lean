import Mathlib.Order.Defs.Unbundled

/-! Work with a state that is kept when the work fails: how a sequence ends, and which state
is left. -/
namespace TapeLang

variable {ε σ τ α β : Type}

section

variable {x : Except ε α} {f : α → Except ε β} {g : α → β} {b : β} {e : ε}

theorem bind_eq_ok_iff : x >>= f = .ok b ↔ ∃ a, x = .ok a ∧ f a = .ok b := by
  cases x <;> simp [bind, Except.bind]

theorem bind_eq_error_iff :
    x >>= f = .error e ↔ x = .error e ∨ ∃ a, x = .ok a ∧ f a = .error e := by
  cases x <;> simp [bind, Except.bind]

theorem map_eq_ok_iff : x.map g = .ok b ↔ ∃ a, x = .ok a ∧ g a = b := by
  cases x <;> simp [Except.map]

theorem map_eq_error_iff : x.map g = .error e ↔ x = .error e := by
  cases x <;> simp [Except.map]

end

section

variable {ι : Type} {f : σ → ι → Except ε σ} {s t : σ} {e : ε}

theorem foldlM_cons_eq_ok_iff {first : ι} {rest : List ι} :
    (first :: rest).foldlM f s = .ok t ↔ ∃ u, f s first = .ok u ∧ rest.foldlM f u = .ok t := by
  rw [List.foldlM_cons, bind_eq_ok_iff]

theorem foldlM_cons_eq_error_iff {first : ι} {rest : List ι} :
    (first :: rest).foldlM f s = .error e ↔
      f s first = .error e ∨ ∃ u, f s first = .ok u ∧ rest.foldlM f u = .error e := by
  rw [List.foldlM_cons, bind_eq_error_iff]

theorem foldlM_append_eq_ok_iff {first second : List ι} :
    (first ++ second).foldlM f s = .ok t ↔
      ∃ u, first.foldlM f s = .ok u ∧ second.foldlM f u = .ok t := by
  rw [List.foldlM_append, bind_eq_ok_iff]

theorem foldlM_append_eq_error_iff {first second : List ι} :
    (first ++ second).foldlM f s = .error e ↔
      first.foldlM f s = .error e ∨
        ∃ u, first.foldlM f s = .ok u ∧ second.foldlM f u = .error e := by
  rw [List.foldlM_append, bind_eq_error_iff]

end

/-- The state that work leaves, whether it fails or not. -/
def endState : EStateM.Result ε σ α → σ
  | .ok _ s | .error _ s => s

/-- What work gives, whatever state it leaves. -/
def outcome : EStateM.Result ε σ α → Except ε α
  | .ok a _ => .ok a
  | .error e _ => .error e

/-- The error that work fails with. -/
def failure? : EStateM.Result ε σ α → Option ε
  | .ok _ _ => none
  | .error e _ => some e

theorem failure?_eq_some_iff {ended : EStateM.Result ε σ α} {e : ε} :
    failure? ended = some e ↔ ended = .error e (endState ended) := by
  cases ended <;> simp [failure?, endState]

theorem run_bind_eq_ok_iff {x : EStateM ε σ α} {f : α → EStateM ε σ β} {s t : σ} {b : β} :
    (x >>= f).run s = .ok b t ↔ ∃ a u, x.run s = .ok a u ∧ (f a).run u = .ok b t := by
  rw [EStateM.run_bind]
  cases x.run s with
  | ok a u => exact ⟨fun ended => ⟨a, u, rfl, ended⟩, by rintro ⟨a, u, ⟨⟩, ended⟩; exact ended⟩
  | error e u => exact ⟨nofun, by rintro ⟨a, u, ⟨⟩, -⟩⟩

theorem run_bind_of_ok {x : EStateM ε σ α} {s u : σ} {a : α} (ended : x.run s = .ok a u)
    (f : α → EStateM ε σ β) : (x >>= f).run s = (f a).run u := by
  rw [EStateM.run_bind, ended]

theorem run_bind_of_error {x : EStateM ε σ α} {s u : σ} {e : ε} (ended : x.run s = .error e u)
    (f : α → EStateM ε σ β) : (x >>= f).run s = .error e u := by
  rw [EStateM.run_bind, ended]

theorem endState_bind_pure (x : EStateM ε σ α) (f : α → β) (s : σ) :
    endState ((x >>= fun a => pure (f a)).run s) = endState (x.run s) := by
  rw [EStateM.run_bind]
  cases x.run s <;> rfl

theorem run_tryCatch (work : EStateM ε σ α) (handle : ε → EStateM ε σ α) (s : σ) :
    (tryCatch work handle).run s =
      match work.run s with
      | .ok a t => .ok a t
      | .error e t => (handle e).run t := by
  change EStateM.tryCatch work handle s = _
  unfold EStateM.tryCatch EStateM.run
  cases work s <;> rfl

/-- Two pieces of work end alike: with the same value or the same error, in related
states. -/
inductive SameEnd (R : σ → τ → Prop) : EStateM.Result ε σ α → EStateM.Result ε τ α → Prop where
  | ok {a : α} {s : σ} {t : τ} : R s t → SameEnd R (.ok a s) (.ok a t)
  | error {e : ε} {s : σ} {t : τ} : R s t → SameEnd R (.error e s) (.error e t)

theorem SameEnd.ends {R : σ → τ → Prop} {x : EStateM.Result ε σ α} {y : EStateM.Result ε τ α}
    (same : SameEnd R x y) :
    (∃ a s t, x = .ok a s ∧ y = .ok a t ∧ R s t) ∨
      ∃ e s t, x = .error e s ∧ y = .error e t ∧ R s t := by
  cases same with
  | ok related => exact .inl ⟨_, _, _, rfl, rfl, related⟩
  | error related => exact .inr ⟨_, _, _, rfl, rfl, related⟩

theorem SameEnd.bind {R : σ → τ → Prop} {x : EStateM ε σ α} {y : EStateM ε τ α}
    {f : α → EStateM ε σ β} {g : α → EStateM ε τ β} {s : σ} {t : τ}
    (first : SameEnd R (x.run s) (y.run t))
    (next : ∀ a u v, R u v → SameEnd R ((f a).run u) ((g a).run v)) :
    SameEnd R ((x >>= f).run s) ((y >>= g).run t) := by
  rcases first.ends with ⟨a, u, v, left, right, related⟩ | ⟨e, u, v, left, right, related⟩
  · rw [run_bind_of_ok left, run_bind_of_ok right]
    exact next a u v related
  · rw [run_bind_of_error left, run_bind_of_error right]
    exact .error related

variable {δ α' β' : Type} {V : α → β → Prop} {E : ε → δ → Prop} {R : σ → τ → Prop}

/-- Two pieces of work end with related values or related errors, in related states. -/
inductive Matched (V : α → β → Prop) (E : ε → δ → Prop) (R : σ → τ → Prop) :
    EStateM.Result ε σ α → EStateM.Result δ τ β → Prop where
  | ok {a : α} {b : β} {s : σ} {t : τ} : V a b → R s t → Matched V E R (.ok a s) (.ok b t)
  | error {e : ε} {d : δ} {s : σ} {t : τ} : E e d → R s t → Matched V E R (.error e s) (.error d t)

theorem Matched.bind {W : α' → β' → Prop} {x : EStateM ε σ α} {y : EStateM δ τ β}
    {f : α → EStateM ε σ α'} {g : β → EStateM δ τ β'} {s : σ} {t : τ}
    (first : Matched V E R (x.run s) (y.run t))
    (next : ∀ a b u v, V a b → R u v → Matched W E R ((f a).run u) ((g b).run v)) :
    Matched W E R ((x >>= f).run s) ((y >>= g).run t) := by
  rw [EStateM.run_bind, EStateM.run_bind]
  generalize x.run s = left, y.run t = right at first
  cases first with
  | ok values related => exact next _ _ _ _ values related
  | error errors related => exact .error errors related

theorem Matched.exists_ok {a : α} {s : σ} {right : EStateM.Result δ τ β}
    (matched : Matched V E R (.ok a s) right) : ∃ b t, right = .ok b t ∧ V a b ∧ R s t := by
  cases matched with
  | ok values related => exact ⟨_, _, rfl, values, related⟩

theorem Matched.exists_error {e : ε} {s : σ} {right : EStateM.Result δ τ β}
    (matched : Matched V E R (.error e s) right) : ∃ d t, right = .error d t ∧ E e d ∧ R s t := by
  cases matched with
  | error errors related => exact ⟨_, _, rfl, errors, related⟩

/-- Work leads from a state to a related one, whether it fails or not. -/
def Leads (R : σ → σ → Prop) (work : EStateM ε σ α) (s : σ) : Prop :=
  R s (endState (work.run s))

namespace Leads

variable {R S : σ → σ → Prop} {x y : EStateM ε σ α} {s t : σ}

theorem intro (ok : ∀ a t, x.run s = .ok a t → R s t)
    (error : ∀ e t, x.run s = .error e t → R s t) : Leads R x s := by
  unfold Leads
  cases ended : x.run s with
  | ok a t => exact ok a t ended
  | error e t => exact error e t ended

theorem of_ok {a : α} (leads : Leads R x s) (ended : x.run s = .ok a t) : R s t := by
  unfold Leads at leads
  rwa [ended] at leads

theorem of_error {e : ε} (leads : Leads R x s) (ended : x.run s = .error e t) : R s t := by
  unfold Leads at leads
  rwa [ended] at leads

theorem pure [Std.Refl R] (a : α) (s : σ) : Leads R (pure a : EStateM ε σ α) s :=
  Std.Refl.refl s

theorem throw [Std.Refl R] (e : ε) (s : σ) : Leads R (throw e : EStateM ε σ α) s :=
  Std.Refl.refl s

theorem modify {f : σ → σ} (related : R s (f s)) :
    Leads R (modify f : EStateM ε σ Unit) s :=
  related

/-- Work that looks at the state. -/
theorem get {f : σ → EStateM ε σ α} (next : Leads R (f s) s) : Leads R (get >>= f) s :=
  next

theorem bind [IsTrans σ R] {f : α → EStateM ε σ β} (first : Leads R x s)
    (next : ∀ a t, x.run s = .ok a t → Leads R (f a) t) : Leads R (x >>= f) s := by
  cases ended : x.run s with
  | error e t =>
    unfold Leads
    rw [run_bind_of_error ended]
    exact first.of_error ended
  | ok a t =>
    have rest := next a t ended
    unfold Leads at rest ⊢
    rw [run_bind_of_ok ended]
    exact trans_of R (first.of_ok ended) rest

theorem tryCatch [IsTrans σ R] {handle : ε → EStateM ε σ α} (work : Leads R x s)
    (handled : ∀ e t, x.run s = .error e t → Leads R (handle e) t) :
    Leads R (tryCatch x handle) s := by
  unfold Leads
  rw [run_tryCatch]
  cases ended : x.run s with
  | ok a t => exact work.of_ok ended
  | error e t => exact trans_of R (work.of_error ended) (handled e t ended)

theorem ite {condition : Prop} [Decidable condition] (yes : Leads R x s) (no : Leads R y s) :
    Leads R (if condition then x else y) s := by
  split
  · exact yes
  · exact no

theorem mono (weaker : ∀ s t, R s t → S s t) (leads : Leads R x s) : Leads S x s :=
  weaker _ _ leads

end Leads

end TapeLang
