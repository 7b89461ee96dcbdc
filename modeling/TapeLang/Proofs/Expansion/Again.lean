import TapeLang.Proofs.Expansion.Sound

/-! Expanding the same tokens again on a dictionary that has grown. Tokens that declare nothing
expand to the same items, unless the name of an instruction has become a definition. Tokens that
declare something cannot be expanded twice. -/
namespace TapeLang

/-- The word that spells an instruction, if it is spelled by one. -/
def Item.instructionWord? : Item → Option Text
  | .plain text _ => if text.all Text.isWord then some text else none
  | .call .. => none

theorem Item.instructionWord?_plain {text : Text} (word : ∀ c ∈ text, Text.isWord c = true)
    (location : Location) : (Item.plain text location).instructionWord? = some text := by
  rw [instructionWord?, if_pos (List.all_eq_true.mpr word)]

theorem Dictionary.not_extends_declare {before between : Dictionary} {d : Definition}
    (declared : before.declare d = .ok between) : ¬ before.Extends between := by
  intro back
  have longer := congrArg List.length (toList_declare declared)
  have shorter := back.length_le
  rw [List.length_append, List.length_singleton] at longer
  omega

/-- What was declared cannot be declared again. -/
theorem Dictionary.declare_ne_ok {before between later after : Dictionary} {d : Definition}
    (declared : before.declare d = .ok between) (extended : later.Extends between) :
    later.declare d ≠ .ok after := by
  intro again
  have known : between.find? d.name = some d := by rw [find?_declare declared, if_pos rfl]
  have still := find?_extends extended known
  unfold declare at again
  split at again
  · cases again
  · rename_i absent
    cases still.symm.trans absent

namespace Expansion

variable {source : Source} {budget : Nat} {chain : List Text} {origin : Option Location}
variable {tokens : List Token} {before after later left : Dictionary} {items items' : List Item}

/-- Where nothing was declared, more definitions do no harm that are no names of instructions. -/
theorem Expands.again (expands : Expands source budget chain origin tokens before items after)
    (quiet : before.Extends after) (extended : later.Extends before)
    (undeclared : ∀ word ∈ items.filterMap Item.instructionWord?,
      before.find? word = none → later.find? word = none) :
    Expands source budget chain origin tokens later items later := by
  induction expands with
  | nil => exact .nil
  | endOfText last => exact .endOfText last
  | declaration _ _ declared rest =>
    exact absurd (quiet.trans rest.extends) (Dictionary.not_extends_declare declared)
  | symbol kind _ ih =>
    apply Expands.symbol kind
    apply ih quiet extended
    intro word member
    exact undeclared word (List.filterMap_subset _ (List.subset_cons_self _ _) member)
  | plainWord kind split absent _ ih =>
    apply Expands.plainWord kind split
    · refine undeclared _ (List.mem_filterMap.mpr ⟨_, List.mem_cons_self, ?_⟩) absent
      exact Item.instructionWord?_plain (isWord_of_splitCall? split) _
    · apply ih quiet extended
      intro word member
      exact undeclared word (List.filterMap_subset _ (List.subset_cons_self _ _) member)
  | call kind split found form arity _ ih =>
    apply Expands.call kind split (Dictionary.find?_extends extended found) form arity
    apply ih quiet extended
    intro word member
    exact undeclared word (List.filterMap_subset _ (List.subset_cons_self _ _) member)
  | body kind split found form recursive made inner rest ihInner ihRest =>
    have still := quiet.trans rest.extends
    apply Expands.body kind split (Dictionary.find?_extends extended found) form recursive made
    · apply ihInner still extended
      intro word member
      exact undeclared word (List.filterMap_subset _ (List.subset_append_left _ _) member)
    · cases inner.extends.antisymm still
      apply ihRest quiet extended
      intro word member
      exact undeclared word (List.filterMap_subset _ (List.subset_append_right _ _) member)

/-- What was expanded and can be expanded again has declared nothing. -/
theorem Expands.quiet_of_again
    (expands : Expands source budget chain origin tokens before items after)
    (again : Expands source budget chain origin tokens later items' left)
    (extended : later.Extends after) : before = after := by
  induction expands generalizing later items' left with
  | nil => rfl
  | endOfText => rfl
  | declaration kind read declared rest ih =>
    cases again with
    | endOfText last => cases kind.symm.trans last
    | symbol other | plainWord other | call other | body other => cases kind.symm.trans other
    | declaration kind' read' declared' =>
      cases kind.symm.trans kind'
      cases read.symm.trans read'
      exact absurd declared' (Dictionary.declare_ne_ok declared (extended.trans rest.extends))
  | symbol kind _ ih =>
    cases again with
    | endOfText other | declaration other | plainWord other | call other | body other =>
      cases kind.symm.trans other
    | symbol _ rest => exact ih rest extended
  | plainWord kind _ _ _ ih =>
    cases again with
    | endOfText other | declaration other | symbol other => cases kind.symm.trans other
    | plainWord _ _ _ rest => exact ih rest extended
    | call _ _ _ _ _ rest => exact ih rest extended
    | body _ _ _ _ _ _ inner rest => exact ih rest (inner.extends.trans extended)
  | call kind _ _ _ _ _ ih =>
    cases again with
    | endOfText other | declaration other | symbol other => cases kind.symm.trans other
    | plainWord _ _ _ rest => exact ih rest extended
    | call _ _ _ _ _ rest => exact ih rest extended
    | body _ _ _ _ _ _ inner rest => exact ih rest (inner.extends.trans extended)
  | body kind split found form _ made inner rest ihInner ihRest =>
    have known := Dictionary.find?_extends (extended.trans (rest.extends.trans inner.extends)) found
    cases again with
    | endOfText other | declaration other | symbol other => cases kind.symm.trans other
    | plainWord _ split' absent =>
      cases split.symm.trans split'
      cases known.symm.trans absent
    | call _ split' found' form' =>
      cases split.symm.trans split'
      cases known.symm.trans found'
      exact absurd form' form
    | body _ split' found' _ _ made' inner' rest' =>
      cases split.symm.trans split'
      cases known.symm.trans found'
      cases made.symm.trans made'
      have first := ihInner inner' (extended.trans rest.extends)
      have second := ihRest rest' (inner'.extends.trans extended)
      exact first.trans second

end Expansion
end TapeLang
