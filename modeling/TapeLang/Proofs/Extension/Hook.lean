import TapeLang.Extension.Hook

/-! Hooks in order, and handlers in turn. To insert hooks one behind the other is to sort them once
by priority, so that those of one priority stay in the order of their insertion. Handlers are called
in turn up to the first that raises. -/
namespace TapeLang

variable {α σ ε : Type}

namespace Hook

/-- Whether a hook may stand before another: the other has no higher priority. -/
def precedes (a b : Hook α) : Bool := b.priority ≤ a.priority

theorem precedes_trans (a b c : Hook α) (first : a.precedes b = true)
    (second : b.precedes c = true) : a.precedes c = true := by
  simp only [precedes, decide_eq_true_eq] at *
  omega

theorem precedes_total (a b : Hook α) : (a.precedes b || b.precedes a) = true := by
  simp only [precedes, Bool.or_eq_true, decide_eq_true_eq]
  omega

end Hook

/-- Hooks with the highest priority first; those of one priority keep their order. -/
def byPriority (hooks : List (Hook α)) : List (Hook α) := hooks.mergeSort Hook.precedes

theorem pairwise_byPriority (hooks : List (Hook α)) :
    (byPriority hooks).Pairwise fun a b => b.priority ≤ a.priority := by
  have ordered := List.pairwise_mergeSort Hook.precedes_trans Hook.precedes_total hooks
  simpa only [byPriority, Hook.precedes, decide_eq_true_eq] using ordered

/-- The hooks of one priority stay in order: they are a part of the list in which none precedes one
before it. -/
theorem filter_byPriority (hooks : List (Hook α)) (p : Int) :
    (byPriority hooks).filter (·.priority = p) = hooks.filter (·.priority = p) := by
  have level : (hooks.filter (·.priority = p)).Pairwise fun a b => a.precedes b = true := by
    rw [List.pairwise_filter]
    apply List.pairwise_of_forall
    intro a b here there
    simp only [decide_eq_true_eq] at here there
    simp [Hook.precedes, here, there]
  have part := (List.sublist_mergeSort Hook.precedes_trans Hook.precedes_total level
    List.filter_sublist).filter (·.priority = p)
  rw [List.filter_filter] at part
  simp only [Bool.and_self] at part
  exact (part.eq_of_length ((List.mergeSort_perm hooks _).filter _).length_eq.symm).symm

/-- Lists in order of priority that have the same hooks of each priority are the same. -/
theorem eq_of_filter {first second : List (Hook α)}
    (ordered : first.Pairwise fun a b => b.priority ≤ a.priority)
    (ordered' : second.Pairwise fun a b => b.priority ≤ a.priority)
    (same : ∀ p : Int, first.filter (·.priority = p) = second.filter (·.priority = p)) :
    first = second := by
  induction first generalizing second with
  | nil =>
    cases second with
    | nil => rfl
    | cons b rest => simpa using same b.priority
  | cons a rest ih =>
    cases second with
    | nil => simpa using same a.priority
    | cons b others =>
      -- each of the two heads stands in the other list, so they have one priority
      have here : a ∈ b :: others := by
        have listed : a ∈ (a :: rest).filter (·.priority = a.priority) := by simp
        exact (List.mem_filter.mp (same a.priority ▸ listed)).1
      have there : b ∈ a :: rest := by
        have listed : b ∈ (b :: others).filter (·.priority = b.priority) := by simp
        exact (List.mem_filter.mp (same b.priority ▸ listed)).1
      have level : a.priority = b.priority := by
        rcases List.mem_cons.mp here with rfl | later
        · rfl
        · rcases List.mem_cons.mp there with rfl | later'
          · rfl
          · exact Int.le_antisymm (List.rel_of_pairwise_cons ordered' later)
              (List.rel_of_pairwise_cons ordered later')
      have heads := same a.priority
      simp only [List.filter_cons, level, decide_true, if_true, List.cons.injEq] at heads
      obtain ⟨rfl, -⟩ := heads
      refine congrArg (a :: ·) (ih ordered.of_cons ordered'.of_cons fun p => ?_)
      have rests := same p
      by_cases known : a.priority = p
      · simpa [known] using rests
      · simpa [known] using rests

/-- In a list in order the hooks behind the place of a new one have lower priorities. -/
theorem lt_of_mem_dropWhile (hook : Hook α) {hooks : List (Hook α)}
    (ordered : hooks.Pairwise fun a b => b.priority ≤ a.priority) {b : Hook α}
    (behind : b ∈ hooks.dropWhile (hook.priority ≤ ·.priority)) : b.priority < hook.priority := by
  induction hooks with
  | nil => cases behind
  | cons a rest ih =>
    rw [List.dropWhile_cons] at behind
    split at behind
    · exact ih ordered.of_cons behind
    · rename_i lower
      have first : a.priority < hook.priority := by simpa using lower
      rcases List.mem_cons.mp behind with rfl | later
      · exact first
      · exact Int.lt_of_le_of_lt (List.rel_of_pairwise_cons ordered later) first

theorem pairwise_insertHook (hook : Hook α) {hooks : List (Hook α)}
    (ordered : hooks.Pairwise fun a b => b.priority ≤ a.priority) :
    (insertHook hook hooks).Pairwise fun a b => b.priority ≤ a.priority := by
  have before (a : Hook α) (front : a ∈ hooks.takeWhile (hook.priority ≤ ·.priority)) :
      hook.priority ≤ a.priority := by
    simpa using List.all_eq_true.mp List.all_takeWhile a front
  have behind (b : Hook α) (back : b ∈ hooks.dropWhile (hook.priority ≤ ·.priority)) :
      b.priority ≤ hook.priority :=
    Int.le_of_lt (lt_of_mem_dropWhile hook ordered back)
  refine List.pairwise_append.mpr ⟨ordered.sublist (List.takeWhile_sublist _),
    List.pairwise_cons.mpr ⟨behind, ordered.sublist (List.dropWhile_sublist _)⟩, ?_⟩
  intro a front b back
  rcases List.mem_cons.mp back with rfl | later
  · exact before a front
  · exact Int.le_trans (behind b later) (before a front)

/-- A new hook stands behind the others of its priority. -/
theorem filter_insertHook (hook : Hook α) {hooks : List (Hook α)}
    (ordered : hooks.Pairwise fun a b => b.priority ≤ a.priority) (p : Int) :
    (insertHook hook hooks).filter (·.priority = p) =
      (hooks ++ [hook]).filter (·.priority = p) := by
  have parts := congrArg (List.filter (·.priority = p))
    (@List.takeWhile_append_dropWhile _ (hook.priority ≤ ·.priority) hooks)
  rw [List.filter_append] at parts
  rw [insertHook, List.filter_append, List.filter_append, ← parts, List.append_assoc,
    List.filter_cons]
  by_cases level : hook.priority = p
  -- behind its place no hook has the priority of the new one
  · have none : (hooks.dropWhile (hook.priority ≤ ·.priority)).filter (·.priority = p) = [] := by
      rw [List.filter_eq_nil_iff]
      intro b back
      have lower := lt_of_mem_dropWhile hook ordered back
      simp only [decide_eq_true_eq]
      omega
    rw [none]
    simp [level]
  · simp [level]

theorem insertHook_byPriority (hook : Hook α) (hooks : List (Hook α)) :
    insertHook hook (byPriority hooks) = byPriority (hooks ++ [hook]) := by
  have ordered := pairwise_byPriority hooks
  apply eq_of_filter (pairwise_insertHook hook ordered) (pairwise_byPriority _)
  intro p
  rw [filter_insertHook hook ordered, filter_byPriority, List.filter_append, List.filter_append,
    filter_byPriority]

/-- `Passes act handlers w v`: handlers that are called in turn take a state from `w` to `v`, and
none of them raises. -/
inductive Passes (act : α → σ → σ × Option ε) : List α → σ → σ → Prop where
  | nil {w} : Passes act [] w w
  | cons {a rest w u v} : act a w = (u, none) → Passes act rest u v → Passes act (a :: rest) w v

/-- `Emits act handlers w called ended`: of the handlers that are to be called in turn these are
called, all of them or those up to the first that raises. -/
inductive Emits (act : α → σ → σ × Option ε) (handlers : List α) (w : σ) :
    List α → σ × Option ε → Prop where
  | whole {v} : Passes act handlers w v → Emits act handlers w handlers (v, none)
  | upTo {before a after u v e} : handlers = before ++ a :: after → Passes act before w u →
      act a u = (v, some e) → Emits act handlers w (before ++ [a]) (v, some e)

theorem Emits.cons {act : α → σ → σ × Option ε} {a : α} {rest called : List α} {w u : σ}
    {ended : σ × Option ε} (silent : act a w = (u, none)) (emits : Emits act rest u called ended) :
    Emits act (a :: rest) w (a :: called) ended := by
  cases emits with
  | whole passes => exact .whole (.cons silent passes)
  | upTo listed passes raises =>
    subst listed
    exact .upTo rfl (.cons silent passes) raises

end TapeLang
