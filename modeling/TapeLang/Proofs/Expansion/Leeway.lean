import TapeLang.Proofs.Expansion

/-! What an expansion does not depend on. More levels and fewer names under expansion do no harm,
and tokens in a row expand one after another. -/
namespace TapeLang.Expansion

variable {source : Source} {budget : Nat} {chain : List Text} {origin : Option Location}
variable {before after : Dictionary} {items : List Item}

/-- An expansion within a budget, inside of some calls, is one within any larger budget and inside
of fewer calls. -/
theorem Expands.within {tokens : List Token}
    (expands : Expands source budget chain origin tokens before items after) (limit : Int)
    {larger : Nat} (le : budget ≤ larger) {fewer : List Text} (sub : fewer ⊆ chain) :
    Expands { source with limit } larger fewer origin tokens before items after := by
  induction expands generalizing larger fewer with
  | nil => exact .nil
  | endOfText last => exact .endOfText last
  | declaration kind read declared _ ih => exact .declaration kind read declared (ih le sub)
  | symbol kind _ ih => exact .symbol kind (ih le sub)
  | plainWord kind split absent _ ih => exact .plainWord kind split absent (ih le sub)
  | call kind split found form arity _ ih => exact .call kind split found form arity (ih le sub)
  | body kind split found form recursive made _ _ ihBody ihRest =>
    obtain ⟨larger, rfl⟩ : ∃ n, larger = n + 1 := ⟨larger - 1, by omega⟩
    refine .body kind split found form ?_ made ?_ (ihRest le sub)
    · exact fun again => recursive ⟨again.1, sub again.2⟩
    · exact ihBody (by omega) (List.cons_subset_cons _ sub)

theorem expandWithin_append {σ : Type} {consume : σ → Item → Except SourceError σ}
    {front : List Token} (unended : ∀ t ∈ front, t.kind ≠ .endOfText) (more : List Token) :
    expandWithin source consume budget chain origin (front ++ more) =
      expandWithin source consume budget chain origin front >>= fun _ =>
        expandWithin source consume budget chain origin more := by
  induction front with
  | nil =>
    rw [List.nil_append, expandWithin_nil]
    rfl
  | cons t rest ih =>
    obtain ⟨here, others⟩ := List.forall_mem_cons.mp unended
    rw [List.cons_append, expandWithin_cons here, expandWithin_cons here, ih others, bind_assoc]

/-- Tokens in a row expand one after another. -/
theorem expands_append_iff {front more : List Token}
    (unended : ∀ t ∈ front, t.kind ≠ .endOfText) :
    Expands source budget chain origin (front ++ more) before items after ↔
      ∃ first between second, Expands source budget chain origin front before first between ∧
        Expands source budget chain origin more between second after ∧
        items = first ++ second := by
  constructor
  · intro expands
    have run := run_expandWithin_of_expands expands (foldlM_append_item [] items)
    rw [expandWithin_append unended, run_bind_eq_ok_iff] at run
    obtain ⟨⟨⟩, ⟨between, collected⟩, runFront, runMore⟩ := run
    obtain ⟨first, expandsFront, taken⟩ := run_expandWithin_eq_ok_iff.mp runFront
    obtain ⟨second, expandsMore, taken'⟩ := run_expandWithin_eq_ok_iff.mp runMore
    obtain rfl : collected = first := Except.ok.inj (taken.symm.trans (foldlM_append_item [] first))
    exact ⟨collected, between, second, expandsFront, expandsMore,
      Except.ok.inj (taken'.symm.trans (foldlM_append_item _ second))⟩
  · rintro ⟨first, between, second, expandsFront, expandsMore, rfl⟩
    have run : (expandWithin source (fun items item => .ok (items ++ [item])) budget chain origin
        (front ++ more)).run ⟨before, []⟩ = .ok () ⟨after, first ++ second⟩ := by
      rw [expandWithin_append unended, run_bind_eq_ok_iff]
      exact ⟨(), _, run_expandWithin_of_expands expandsFront (foldlM_append_item [] first),
        run_expandWithin_of_expands expandsMore (foldlM_append_item _ second)⟩
    obtain ⟨items, expands, taken⟩ := run_expandWithin_eq_ok_iff.mp run
    cases (foldlM_append_item [] items).symm.trans taken
    exact expands

/-- The end of the text gives nothing. -/
theorem expands_ended_iff {front : List Token} {last : Token}
    (unended : ∀ t ∈ front, t.kind ≠ .endOfText) (ends : last.kind = .endOfText) :
    Expands source budget chain origin (front ++ [last]) before items after ↔
      Expands source budget chain origin front before items after := by
  rw [expands_append_iff unended]
  constructor
  · rintro ⟨first, between, second, expands, expandsLast, rfl⟩
    cases expandsLast with
    | declaration kind | symbol kind | plainWord kind | call kind | body kind =>
      cases ends.symm.trans kind
    | endOfText => rwa [List.append_nil]
  · intro expands
    exact ⟨items, after, [], expands, .endOfText ends, (List.append_nil items).symm⟩

end TapeLang.Expansion
