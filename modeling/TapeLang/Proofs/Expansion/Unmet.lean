import TapeLang.Proofs.Expansion.Involved

/-! The names that expanding a text meets. A definition under a name that is not met makes no
difference: what is expanded beside it gives the same items. -/
namespace TapeLang

/-- Expanding a text by the definitions of a dictionary meets the names of the calls that its words
make, and those that are met in the texts that macros and procedures stand for there. -/
inductive Text.Meets (dictionary : Dictionary) : Text → Text → Prop where
  | named {text c} : Text.Names text c → Meets dictionary text c.name
  | inBody {text caller d body name} : Text.Names text caller →
      dictionary.find? caller.name = some d → d.kind ≠ .functionForm →
      d.instantiate caller.args = .ok body → Meets dictionary body name → Meets dictionary text name

/-- Tokens whose calls neither have a name nor meet it in the texts that they stand for. -/
def Expansion.Spared (dictionary : Dictionary) (name : Text) (tokens : List Token) : Prop :=
  ∀ t ∈ tokens, ∀ c, t.Names c → c.name ≠ name ∧
    ∀ d body, dictionary.find? c.name = some d → d.kind ≠ .functionForm →
      d.instantiate c.args = .ok body → ¬ Text.Meets dictionary body name

/-- Dictionaries in which every name but one stands for the same. -/
def Dictionary.AgreesBeside (name : Text) (a b : Dictionary) : Prop :=
  ∀ other, other ≠ name → b.find? other = a.find? other

variable {dictionary before after later between : Dictionary} {name : Text} {d : Definition}

theorem Dictionary.AgreesBeside.declare (agrees : before.AgreesBeside name later)
    (declared : before.declare d = .ok between) (other : d.name ≠ name) :
    ∃ between', later.declare d = .ok between' ∧ between.AgreesBeside name between' := by
  have absent : later.find? d.name = none := by
    rw [agrees d.name other]
    unfold Dictionary.declare at declared
    split at declared
    · cases declared
    · assumption
  obtain ⟨between', declared'⟩ := exists_declare_of_absent absent
  refine ⟨between', declared', ?_⟩
  intro word differs
  rw [find?_declare declared', find?_declare declared, agrees word differs]

namespace Expansion

variable {source : Source} {budget : Nat} {chain inside : List Text} {origin : Option Location}
variable {tokens : List Token} {items : List Item}

theorem spared_of_not_meets {file text : Text} (lexed : tokenize file text = .ok tokens)
    (unmet : ¬ Text.Meets dictionary text name) : Spared dictionary name tokens := by
  intro t member c names
  have named : Text.Names text c := ⟨file, tokens, lexed, t, member, names⟩
  constructor
  · rintro rfl
    exact unmet (.named named)
  · exact fun d body found form instantiated meets =>
      unmet (.inBody named found form instantiated meets)

/-- Beside a definition that is not met, and inside of a call of it, tokens give the same items. -/
theorem Expands.beside (expands : Expands source budget chain origin tokens before items after)
    (spared : Spared dictionary name tokens) (undefined : dictionary.find? name = none)
    (extended : dictionary.Extends after) (agrees : before.AgreesBeside name later)
    (sub : inside ⊆ name :: chain) :
    ∃ left, Expands source budget inside origin tokens later items left ∧
      after.AgreesBeside name left := by
  induction expands generalizing later inside with
  | nil => exact ⟨later, .nil, agrees⟩
  | endOfText last => exact ⟨later, .endOfText last, agrees⟩
  | @declaration _ _ _ _ between _ _ _ _ _ d kind read declared rest ih =>
    have other : d.name ≠ name := by
      intro same
      have known := Dictionary.find?_extends (extended.trans rest.extends)
        ((Dictionary.find?_declare declared d.name).trans (if_pos rfl))
      rw [same, undefined] at known
      cases known
    obtain ⟨between', declared', agrees'⟩ := agrees.declare declared other
    obtain ⟨left, expands', last⟩ :=
      ih (List.forall_mem_cons.mp spared).2 extended agrees' sub
    exact ⟨left, .declaration kind read declared' expands', last⟩
  | symbol kind _ ih =>
    obtain ⟨left, expands', last⟩ := ih (List.forall_mem_cons.mp spared).2 extended agrees sub
    exact ⟨left, .symbol kind expands', last⟩
  | plainWord kind split absent _ ih =>
    obtain ⟨first, others⟩ := List.forall_mem_cons.mp spared
    obtain ⟨left, expands', last⟩ := ih others extended agrees sub
    have other := (first ⟨_, _⟩ ⟨kind, _, split, rfl⟩).1
    exact ⟨left, .plainWord kind split ((agrees _ other).trans absent) expands', last⟩
  | call kind split found form arity _ ih =>
    obtain ⟨first, others⟩ := List.forall_mem_cons.mp spared
    obtain ⟨left, expands', last⟩ := ih others extended agrees sub
    have other := (first ⟨_, _⟩ ⟨kind, _, split, rfl⟩).1
    exact ⟨left, .call kind split ((agrees _ other).trans found) form arity expands', last⟩
  | @body _ chain _ _ _ _ _ _ _ _ word raw d _ kind split found form recursive made inner rest ihInner
      ihRest =>
    obtain ⟨first, others⟩ := List.forall_mem_cons.mp spared
    obtain ⟨other, bodies⟩ := first ⟨word, argumentList (raw.getD [])⟩ ⟨kind, raw, split, rfl⟩
    have between := extended.trans rest.extends
    have known := Dictionary.find?_extends (between.trans inner.extends) found
    obtain ⟨text, instantiated, lexed⟩ := bodyTokens_eq_ok_iff.mp made
    have unmet := bodies d text known form instantiated
    have deeper : d.name :: inside ⊆ name :: d.name :: chain := by
      intro x member
      rcases List.mem_cons.mp member with rfl | earlier
      · simp
      · rcases List.mem_cons.mp (sub earlier) with rfl | outside
        · simp
        · simp [outside]
    obtain ⟨middle, inner', agrees'⟩ :=
      ihInner (spared_of_not_meets lexed unmet) between agrees deeper
    obtain ⟨left, rest', last⟩ := ihRest others extended agrees' sub
    refine ⟨left, .body kind split ((agrees _ other).trans found) form ?_ made inner' rest', last⟩
    rintro ⟨isProcedure, again⟩
    rcases List.mem_cons.mp (sub again) with same | outside
    · exact other ((Dictionary.name_of_find? found).symm.trans same)
    · exact recursive ⟨isProcedure, outside⟩

end Expansion
end TapeLang
