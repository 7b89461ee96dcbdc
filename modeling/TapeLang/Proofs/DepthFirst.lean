import Mathlib.Data.List.Dedup

/-! Depth-first visits with a bound on the depth. A node is visited once, at the depth at which
it is first met; below the bound nothing is visited. What is missed lies behind nodes that were
first met at the bound. -/
namespace TapeLang.DepthFirst

variable {α : Type} [DecidableEq α] (next : α → List α)

/-- The nodes visited, the latest first, each with the number of levels left below it. -/
def visit : Nat → List α → List (α × Nat) → List (α × Nat)
  | 0, _, seen => seen
  | budget + 1, nodes, seen =>
    nodes.foldl
      (fun seen a =>
        if a ∈ seen.map Prod.fst then seen else visit budget (next a) ((a, budget) :: seen))
      seen

/-- The visits as a relation, one case for each way in which a visit goes on. -/
inductive Visits : Nat → List α → List (α × Nat) → List (α × Nat) → Prop where
  | bound {nodes seen} : Visits 0 nodes seen seen
  | nil {budget seen} : Visits (budget + 1) [] seen seen
  | known {budget a rest seen after} : a ∈ seen.map Prod.fst →
      Visits (budget + 1) rest seen after → Visits (budget + 1) (a :: rest) seen after
  | fresh {budget a rest seen between after} : a ∉ seen.map Prod.fst →
      Visits budget (next a) ((a, budget) :: seen) between →
      Visits (budget + 1) rest between after → Visits (budget + 1) (a :: rest) seen after

omit [DecidableEq α] in
/-- The ends of the paths of a length that start at the nodes. -/
def layer (nodes : List α) : Nat → List α
  | 0 => nodes
  | n + 1 => (layer nodes n).flatMap next

variable {next} {budget n r : Nat} {a b : α} {nodes rest : List α} {seen after : List (α × Nat)}

theorem visit_cons_known (known : a ∈ seen.map Prod.fst) :
    visit next (budget + 1) (a :: rest) seen = visit next (budget + 1) rest seen := by
  rw [visit, List.foldl_cons, if_pos known, visit]

theorem visit_cons_fresh (fresh : a ∉ seen.map Prod.fst) :
    visit next (budget + 1) (a :: rest) seen =
      visit next (budget + 1) rest (visit next budget (next a) ((a, budget) :: seen)) := by
  rw [visit, List.foldl_cons, if_neg fresh, visit]

theorem visits_visit (budget : Nat) (nodes : List α) (seen : List (α × Nat)) :
    Visits next budget nodes seen (visit next budget nodes seen) := by
  induction budget generalizing nodes seen with
  | zero => exact .bound
  | succ budget ihDown =>
    induction nodes generalizing seen with
    | nil => exact .nil
    | cons a rest ihRest =>
      by_cases known : a ∈ seen.map Prod.fst
      · rw [visit_cons_known known]
        exact .known known (ihRest seen)
      · rw [visit_cons_fresh known]
        exact .fresh known (ihDown _ _) (ihRest _)

omit [DecidableEq α] in
theorem layer_subset {fewer more : List α} (subset : fewer ⊆ more) (n : Nat) :
    layer next fewer n ⊆ layer next more n := by
  induction n with
  | zero => exact subset
  | succ n ih =>
    intro b member
    obtain ⟨a, inLayer, stepped⟩ := List.mem_flatMap.mp member
    exact List.mem_flatMap.mpr ⟨a, ih inLayer, stepped⟩

omit [DecidableEq α] in
/-- A path may be prolonged at its start. -/
theorem layer_next (listed : a ∈ nodes) (n : Nat) :
    layer next (next a) n ⊆ layer next nodes (n + 1) := by
  induction n with
  | zero =>
    intro b member
    exact List.mem_flatMap.mpr ⟨a, listed, member⟩
  | succ n ih =>
    intro b member
    obtain ⟨c, inLayer, stepped⟩ := List.mem_flatMap.mp member
    exact List.mem_flatMap.mpr ⟨c, ih inLayer, stepped⟩

omit [DecidableEq α] in
/-- The order in which nodes are listed does not matter to what paths reach. -/
theorem mem_layer_reverse :
    a ∈ layer (fun b => (next b).reverse) nodes.reverse n ↔ a ∈ layer next nodes n := by
  induction n generalizing a with
  | zero => exact List.mem_reverse
  | succ n ih => simp only [layer, List.mem_flatMap, ih, List.mem_reverse]

namespace Visits

omit [DecidableEq α]

/-- Visits are added in front of those before. -/
theorem suffix (visits : Visits next budget nodes seen after) : seen <:+ after := by
  induction visits with
  | bound => exact List.suffix_refl _
  | nil => exact List.suffix_refl _
  | known _ _ ih => exact ih
  | fresh _ _ _ ihDown ihRest => exact ((List.suffix_cons _ _).trans ihDown).trans ihRest

theorem keeps (visits : Visits next budget nodes seen after) (member : a ∈ seen.map Prod.fst) :
    a ∈ after.map Prod.fst :=
  List.map_subset Prod.fst visits.suffix.subset member

/-- Nothing is visited twice. -/
theorem nodup (visits : Visits next budget nodes seen after)
    (distinct : (seen.map Prod.fst).Nodup) : (after.map Prod.fst).Nodup := by
  induction visits with
  | bound => exact distinct
  | nil => exact distinct
  | known _ _ ih => exact ih distinct
  | fresh fresh _ _ ihDown ihRest => exact ihRest (ihDown (List.nodup_cons.mpr ⟨fresh, distinct⟩))

/-- What is visited with levels left ends a path of the levels used up. -/
theorem mem_layer (visits : Visits next budget nodes seen after) (member : (a, r) ∈ after) :
    (a, r) ∈ seen ∨ ∃ n, n + r + 1 = budget ∧ a ∈ layer next nodes n := by
  induction visits with
  | bound => exact .inl member
  | nil => exact .inl member
  | known _ _ ih =>
    rcases ih member with earlier | ⟨n, levels, inLayer⟩
    · exact .inl earlier
    · exact .inr ⟨n, levels, layer_subset (List.subset_cons_self _ _) n inLayer⟩
  | fresh _ _ _ ihDown ihRest =>
    rcases ihRest member with earlier | ⟨n, levels, inLayer⟩
    · rcases ihDown earlier with earlier | ⟨n, levels, inLayer⟩
      · rcases List.mem_cons.mp earlier with first | earlier
        · cases first
          exact .inr ⟨0, by omega, List.mem_cons_self⟩
        · exact .inl earlier
      · exact .inr ⟨n + 1, by omega, layer_next List.mem_cons_self n inLayer⟩
    · exact .inr ⟨n, levels, layer_subset (List.subset_cons_self _ _) n inLayer⟩

/-- Where a level is left, every node is visited. -/
theorem covers (visits : Visits next (budget + 1) nodes seen after) :
    ∀ a ∈ nodes, a ∈ after.map Prod.fst := by
  generalize levels : budget + 1 = some_level at visits
  induction visits with
  | bound => cases levels
  | nil => simp
  | known known rest ih => exact List.forall_mem_cons.mpr ⟨rest.keeps known, ih levels⟩
  | fresh _ down rest _ ihRest =>
    exact List.forall_mem_cons.mpr ⟨rest.keeps (down.keeps (by simp)), ihRest levels⟩

/-- What follows a node visited with a level left is visited too. -/
theorem closed (visits : Visits next budget nodes seen after) (member : (a, r + 1) ∈ after) :
    (a, r + 1) ∈ seen ∨ ∀ b ∈ next a, b ∈ after.map Prod.fst := by
  induction visits with
  | bound => exact .inl member
  | nil => exact .inl member
  | known _ _ ih => exact ih member
  | fresh _ down rest ihDown ihRest =>
    rcases ihRest member with earlier | followed
    · rcases ihDown earlier with earlier | followed
      · rcases List.mem_cons.mp earlier with first | earlier
        · cases first
          exact .inr fun b stepped => rest.keeps (down.covers b stepped)
        · exact .inl earlier
      · exact .inr fun b stepped => rest.keeps (followed b stepped)
    · exact .inr followed

/-- Everything within the bound is visited exactly when nothing within it is missed behind a
node that was first met at the bound. -/
theorem complete_iff (visits : Visits next budget nodes [] after) :
    (∀ n < budget, ∀ a ∈ layer next nodes n, a ∈ after.map Prod.fst) ↔
      ∀ a, (a, 0) ∈ after → ∀ b ∈ next a, (∃ n < budget, b ∈ layer next nodes n) →
        b ∈ after.map Prod.fst := by
  constructor
  · rintro complete a - b - ⟨n, inside, inLayer⟩
    exact complete n inside b inLayer
  · intro nothingMissed n inside
    induction n with
    | zero =>
      obtain ⟨budget, rfl⟩ : ∃ k, budget = k + 1 := ⟨budget - 1, by omega⟩
      exact visits.covers
    | succ n ih =>
      intro b inLayer
      obtain ⟨a, earlier, stepped⟩ := List.mem_flatMap.mp inLayer
      obtain ⟨⟨a, r⟩, visited, rfl⟩ := List.mem_map.mp (ih (by omega) a earlier)
      cases r with
      | zero => exact nothingMissed a visited b stepped ⟨n + 1, inside, inLayer⟩
      | succ r =>
        rcases visits.closed visited with none_before | followed
        · cases none_before
        · exact followed b stepped

end Visits
end TapeLang.DepthFirst
