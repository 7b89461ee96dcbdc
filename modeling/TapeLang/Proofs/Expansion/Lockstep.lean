import Mathlib.Data.List.Forall2
import TapeLang.Proofs.Definition.Declaration
import TapeLang.Proofs.Expansion

/-! Two consumers of one token list. As long as they refuse the same items, expansion meets
the same declarations, bodies and errors with either of them. Nor does it look at the places
where definitions were declared. -/
namespace TapeLang

/-- Two ways to take an item agree: they fail with the same error, or end related. -/
inductive SameStep {ε σ τ : Type} (R : σ → τ → Prop) : Except ε σ → Except ε τ → Prop where
  | ok {s : σ} {t : τ} : R s t → SameStep R (.ok s) (.ok t)
  | error {e : ε} : SameStep R (.error e) (.error e)

theorem SameStep.ends {ε σ τ : Type} {R : σ → τ → Prop} {x : Except ε σ} {y : Except ε τ}
    (same : SameStep R x y) :
    (∃ s t, x = .ok s ∧ y = .ok t ∧ R s t) ∨ ∃ e, x = .error e ∧ y = .error e := by
  cases same with
  | ok related => exact .inl ⟨_, _, rfl, rfl, related⟩
  | error => exact .inr ⟨_, rfl, rfl⟩

/-- A likeness of definitions, which may differ in their places only. -/
structure IsLikeness (like : Definition → Definition → Prop) : Prop where
  refl : ∀ d, like d d
  unplaced : ∀ {d e}, like d e → e.unplaced = d.unplaced

namespace IsLikeness

variable {like : Definition → Definition → Prop} {d e : Definition}

theorem eq : IsLikeness Eq := ⟨fun _ => rfl, by rintro _ _ rfl; rfl⟩

theorem kind (likeness : IsLikeness like) (alike : like d e) : e.kind = d.kind :=
  congrArg (·.kind) (likeness.unplaced alike)

theorem name (likeness : IsLikeness like) (alike : like d e) : e.name = d.name :=
  congrArg (·.name) (likeness.unplaced alike)

theorem params (likeness : IsLikeness like) (alike : like d e) : e.params = d.params :=
  congrArg (·.params) (likeness.unplaced alike)

theorem body (likeness : IsLikeness like) (alike : like d e) : e.body = d.body :=
  congrArg (·.body) (likeness.unplaced alike)

/-- Like definitions stand for the same texts, and refuse the same arguments. -/
theorem instantiate (likeness : IsLikeness like) (alike : like d e) (args : List Text) :
    e.instantiate args = d.instantiate args := by
  unfold Definition.instantiate Definition.arityFault
  rw [likeness.params alike, likeness.name alike, likeness.body alike]

theorem bodyTokens (likeness : IsLikeness like) (alike : like d e) (file : Text)
    (args : List Text) (location : Location) :
    Expansion.bodyTokens file e args location = Expansion.bodyTokens file d args location := by
  unfold Expansion.bodyTokens
  rw [likeness.instantiate alike]

end IsLikeness

/-- Dictionaries of like definitions in the same order. -/
def Dictionary.Like (like : Definition → Definition → Prop) (a b : Dictionary) : Prop :=
  List.Forall₂ like a.toList b.toList

namespace Dictionary

variable {like : Definition → Definition → Prop} {a b : Dictionary}

theorem like_eq_iff : Like Eq a b ↔ a = b := by
  unfold Like
  rw [List.forall₂_eq_eq_eq]
  constructor
  · intro same
    cases a
    cases b
    congr
  · rintro rfl
    rfl

/-- A name stands for nothing in both, or for like definitions. -/
theorem Like.find? (names : ∀ {d e}, like d e → e.name = d.name) (alike : Like like a b)
    (name : Text) :
    (a.find? name = none ∧ b.find? name = none) ∨
      ∃ d e, a.find? name = some d ∧ b.find? name = some e ∧ like d e := by
  unfold Like at alike
  unfold Dictionary.find?
  generalize a.toList = ds, b.toList = es at alike
  induction alike with
  | nil => exact .inl ⟨rfl, rfl⟩
  | @cons d e _ _ first _ ih =>
    rw [List.find?_cons, List.find?_cons, names first]
    cases d.name == name with
    | true => exact .inr ⟨d, e, rfl, rfl, first⟩
    | false => exact ih

theorem declare_of_found {d e : Definition} (found : a.find? d.name = some e) :
    a.declare d = .error ⟨.alreadyDefined d.name, d.location⟩ := by
  unfold declare
  split
  · rfl
  · rename_i absent
    cases found.symm.trans absent

theorem exists_declare_of_absent {d : Definition} (absent : a.find? d.name = none) :
    ∃ after, a.declare d = .ok after := by
  unfold declare
  split
  · rename_i found
    cases found.symm.trans absent
  · exact ⟨_, rfl⟩

theorem Like.exists_declare (names : ∀ {d e}, like d e → e.name = d.name) (alike : Like like a b)
    {d e : Definition} (same : like d e) {after : Dictionary} (declared : a.declare d = .ok after) :
    ∃ after', b.declare e = .ok after' ∧ Like like after after' := by
  rcases alike.find? names d.name with ⟨-, absent⟩ | ⟨c, f, found, -⟩
  · rw [← names same] at absent
    obtain ⟨after', declared'⟩ := exists_declare_of_absent absent
    refine ⟨after', declared', ?_⟩
    unfold Like
    rw [toList_declare declared, toList_declare declared']
    exact List.rel_append alike (.cons same .nil)
  · rw [declare_of_found found] at declared
    cases declared

theorem Like.declare (likeness : IsLikeness like) (alike : Like like a b) (d : Definition) :
    SameStep (Like like) (a.declare d) (b.declare d) := by
  rcases alike.find? likeness.name d.name with ⟨absent, -⟩ | ⟨e, f, left, right, -⟩
  · obtain ⟨after, declared⟩ := exists_declare_of_absent absent
    obtain ⟨after', declared', same⟩ :=
      alike.exists_declare likeness.name (likeness.refl d) declared
    rw [declared, declared']
    exact .ok same
  · rw [declare_of_found left, declare_of_found right]
    exact .error

end Dictionary
/-- Items that differ at most in the place where their function was declared. -/
inductive Item.Like (like : Definition → Definition → Prop) : Item → Item → Prop where
  | plain {text location} : Like like (.plain text location) (.plain text location)
  | call {d e args location} :
      like d e → Like like (.call d args location) (.call e args location)

theorem Item.like_eq_iff {item item' : Item} : item.Like Eq item' ↔ item = item' := by
  constructor
  · intro alike
    cases alike with
    | plain => rfl
    | call same => rw [same]
  · rintro rfl
    cases item with
    | plain => exact .plain
    | call => exact .call rfl

namespace Expansion

variable {σ τ : Type} {R : σ → τ → Prop} {like : Definition → Definition → Prop}
variable {consume : σ → Item → Except SourceError σ} {consume' : τ → Item → Except SourceError τ}

/-- Two consumers that agree on like items, from related states on. -/
def InStepOn (like : Definition → Definition → Prop) (R : σ → τ → Prop)
    (consume : σ → Item → Except SourceError σ)
    (consume' : τ → Item → Except SourceError τ) : Prop :=
  ∀ s t item item', item.Like like item' → R s t →
    SameStep R (consume s item) (consume' t item')

/-- Two consumers that agree on every item, from related states on. -/
def InStep (R : σ → τ → Prop) (consume : σ → Item → Except SourceError σ)
    (consume' : τ → Item → Except SourceError τ) : Prop :=
  ∀ s t item, R s t → SameStep R (consume s item) (consume' t item)

theorem InStep.on (inStep : InStep R consume consume') : InStepOn Eq R consume consume' := by
  intro s t item item' alike related
  rw [← Item.like_eq_iff.mp alike]
  exact inStep s t item related

/-- Progress with like dictionaries and related consumers. -/
def TogetherOn (like : Definition → Definition → Prop) (R : σ → τ → Prop) (p : Progress σ)
    (q : Progress τ) : Prop :=
  p.dictionary.Like like q.dictionary ∧ R p.consumed q.consumed

variable {p : Progress σ} {q : Progress τ} {source : Source}

theorem sameEnd_feed (inStep : InStepOn like R consume consume')
    (together : TogetherOn like R p q) {item item' : Item} (alike : item.Like like item') :
    SameEnd (TogetherOn like R) ((feed consume item).run p) ((feed consume' item').run q) := by
  have step := inStep _ _ _ _ alike together.2
  rw [feed, feed, EStateM.run_bind, EStateM.run_bind, EStateM.run_get, EStateM.run_get]
  dsimp only
  rcases step.ends with ⟨s, t, left, right, related⟩ | ⟨e, left, right⟩
  · rw [left, right]
    exact .ok ⟨together.1, related⟩
  · rw [left, right]
    exact .error together

theorem sameEnd_declare (likeness : IsLikeness like) (together : TogetherOn like R p q)
    (kind : DefinitionKind) (value : Text) (location : Location) :
    SameEnd (TogetherOn like R) ((declare kind value location).run p)
      ((declare kind value location).run q) := by
  rw [declare, declare, EStateM.run_bind, EStateM.run_bind, EStateM.run_get, EStateM.run_get]
  dsimp only
  cases readDeclaration kind value location with
  | error e => exact .error together
  | ok d =>
    have declared := together.1.declare likeness d
    rw [show (Except.ok d >>= p.dictionary.declare) = p.dictionary.declare d from rfl,
      show (Except.ok d >>= q.dictionary.declare) = q.dictionary.declare d from rfl]
    rcases declared.ends with ⟨a, b, left, right, alike⟩ | ⟨e, left, right⟩
    · rw [left, right]
      exact .ok ⟨alike, together.2⟩
    · rw [left, right]
      exact .error together

/-- The bodies below two readings end alike. -/
def SameDescent (like : Definition → Definition → Prop) (R : σ → τ → Prop)
    (descend : Option (Descend σ)) (descend' : Option (Descend τ)) : Prop :=
  (descend = none ∧ descend' = none) ∨
    ∃ f g, descend = some f ∧ descend' = some g ∧
      ∀ chain location tokens p q, TogetherOn like R p q →
        SameEnd (TogetherOn like R) ((f chain location tokens).run p)
          ((g chain location tokens).run q)

theorem sameEnd_expandCall (likeness : IsLikeness like) (inStep : InStepOn like R consume consume')
    (together : TogetherOn like R p q) {descend : Option (Descend σ)}
    {descend' : Option (Descend τ)} (below : SameDescent like R descend descend')
    (chain : List Text) {d e : Definition} (alike : like d e) (args : List Text)
    (location : Location) :
    SameEnd (TogetherOn like R)
      ((expandCall source consume descend chain d args location).run p)
      ((expandCall source consume' descend' chain e args location).run q) := by
  unfold expandCall Definition.arityFault
  rw [likeness.kind alike, likeness.name alike, likeness.params alike]
  by_cases form : d.kind = .functionForm
  · rw [if_pos form, if_pos form]
    by_cases arity : args.length = d.params.length
    · rw [if_pos arity, if_pos arity]
      exact sameEnd_feed inStep together (.call alike)
    · rw [if_neg arity, if_neg arity]
      exact .error together
  · rw [if_neg form, if_neg form]
    by_cases recursive : d.kind = .procedureForm ∧ d.name ∈ chain
    · rw [if_pos recursive, if_pos recursive]
      exact .error together
    · rw [if_neg recursive, if_neg recursive]
      rcases below with ⟨rfl, rfl⟩ | ⟨f, g, rfl, rfl, inner⟩
      · exact .error together
      · dsimp only
        rw [likeness.bodyTokens alike]
        cases bodyTokens source.file d args location with
        | error e => exact .error together
        | ok tokens => exact inner _ _ _ _ _ together

theorem sameEnd_readWord (likeness : IsLikeness like) (inStep : InStepOn like R consume consume')
    (together : TogetherOn like R p q) {descend : Option (Descend σ)}
    {descend' : Option (Descend τ)} (below : SameDescent like R descend descend')
    (chain : List Text) (word : Text) (location : Location) :
    SameEnd (TogetherOn like R) ((readWord source consume descend chain word location).run p)
      ((readWord source consume' descend' chain word location).run q) := by
  unfold readWord
  cases splitCall? word with
  | none => exact .error together
  | some parts =>
    obtain ⟨name, raw⟩ := parts
    simp only [EStateM.run_bind, EStateM.run_get]
    rcases together.1.find? likeness.name name with ⟨left, right⟩ | ⟨d, e, left, right, alike⟩
    · rw [left, right]
      cases raw with
      | none => exact sameEnd_feed inStep together .plain
      | some raw => exact .error together
    · rw [left, right]
      exact sameEnd_expandCall likeness inStep together below _ alike _ _

/-- Expansion ends alike for two consumers in step, on like dictionaries. -/
theorem sameEnd_expandWithin_on (likeness : IsLikeness like) (source : Source)
    (inStep : InStepOn like R consume consume') (together : TogetherOn like R p q) (budget : Nat)
    (chain : List Text) (origin : Option Location) (tokens : List Token) :
    SameEnd (TogetherOn like R)
      ((expandWithin source consume budget chain origin tokens).run p)
      ((expandWithin source consume' budget chain origin tokens).run q) := by
  -- the budget drops in a body, the tokens become fewer beside it
  induction budget generalizing chain origin tokens p q with
  | zero | succ budget ihBody =>
    induction tokens generalizing p q with
    | nil =>
      rw [expandWithin_nil, expandWithin_nil]
      exact .ok together
    | cons token rest ihRest =>
      by_cases last : token.kind = .endOfText
      · rw [expandWithin_endOfText last, expandWithin_endOfText last]
        exact .ok together
      · rw [expandWithin_cons last, expandWithin_cons last]
        refine SameEnd.bind ?_ fun _ _ _ together => ihRest together
        unfold readToken
        cases kind : token.kind with
        | endOfText => exact absurd kind last
        | declaration form => exact sameEnd_declare likeness together _ _ _
        | symbol => exact sameEnd_feed inStep together .plain
        | word =>
          refine sameEnd_readWord likeness inStep together ?_ _ _ _
          first
            | exact .inl ⟨rfl, rfl⟩
            | exact .inr ⟨_, _, rfl, rfl, fun _ _ _ _ _ together => ihBody together _ _ _⟩

/-- Progress with the same dictionary and related consumers. -/
def Together (R : σ → τ → Prop) (p : Progress σ) (q : Progress τ) : Prop :=
  p.dictionary = q.dictionary ∧ R p.consumed q.consumed

/-- Expansion ends alike for two consumers in step. -/
theorem sameEnd_expandWithin (source : Source) (inStep : InStep R consume consume')
    (together : Together R p q) (budget : Nat) (chain : List Text) (origin : Option Location)
    (tokens : List Token) :
    SameEnd (Together R) ((expandWithin source consume budget chain origin tokens).run p)
      ((expandWithin source consume' budget chain origin tokens).run q) := by
  have start : TogetherOn Eq R p q := ⟨Dictionary.like_eq_iff.mpr together.1, together.2⟩
  have same := sameEnd_expandWithin_on .eq source inStep.on start budget chain origin tokens
  rcases same.ends with ⟨a, u, v, left, right, alike, related⟩ |
    ⟨e, u, v, left, right, alike, related⟩
  · rw [left, right]
    exact .ok ⟨Dictionary.like_eq_iff.mp alike, related⟩
  · rw [left, right]
    exact .error ⟨Dictionary.like_eq_iff.mp alike, related⟩

end Expansion

end TapeLang
