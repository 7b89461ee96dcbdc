import TapeLang.Program
import TapeLang.Proofs.Expansion.Lockstep

/-! Reading a whole source: how expansion and the last word of the consumer make the result,
and how the results of two consumers in step compare. -/
namespace TapeLang.Source

variable {σ τ α β : Type} {source : Source} {tokens : List Token}

theorem run_consumeAll (start : σ) (consume : σ → Item → Except SourceError σ)
    (finish : σ → Except SourceError α) (dictionary : Dictionary) :
    (source.consumeAll tokens start consume finish).run dictionary =
      match (source.expand consume tokens).run ⟨dictionary, start⟩ with
      | .error e p => .error e p.dictionary
      | .ok () p =>
        match finish p.consumed with
        | .error e => .error e p.dictionary
        | .ok a => .ok a p.dictionary := by
  unfold consumeAll
  rw [EStateM.run_bind, EStateM.run_get]
  dsimp only
  cases (source.expand consume tokens).run ⟨dictionary, start⟩ with
  | error e p => rfl
  | ok u p =>
    cases u
    dsimp only
    rw [EStateM.run_bind, EStateM.run_set]
    dsimp only
    cases finish p.consumed <;> rfl

theorem run_parse (dictionary : Dictionary) :
    (source.parse tokens).run dictionary =
      match (source.consumeAll tokens {} LoopBinder.consume LoopBinder.finish).run dictionary with
      | .error e after => .error e after
      | .ok code after => .ok ⟨code, after⟩ after := by
  unfold parse
  rw [EStateM.run_bind]
  cases (source.consumeAll tokens {} LoopBinder.consume LoopBinder.finish).run dictionary <;> rfl

/-- The items that the tokens of a source expand to. -/
def items (source : Source) (tokens : List Token) : Declaring (List Item) :=
  source.consumeAll tokens [] (fun items item => .ok (items ++ [item])) .ok

theorem run_items {before after : Dictionary} {items : List Item}
    (expands : Expansion.Expands source source.limit.toNat [] none tokens before items after) :
    (source.items tokens).run before = .ok items after := by
  have expanded := Expansion.run_expandWithin_of_expands expands
    (Expansion.foldlM_append_item [] items)
  rw [Source.items, run_consumeAll, expand, expanded]
  rfl

/-- Two consumers in step leave the same dictionary; they fail with the same error, or both
give a result. -/
theorem consumeAll_inStep {R : σ → τ → Prop} {S : α → β → Prop}
    {consume : σ → Item → Except SourceError σ} {consume' : τ → Item → Except SourceError τ}
    {finish : σ → Except SourceError α} {finish' : τ → Except SourceError β} {s : σ} {t : τ}
    (inStep : Expansion.InStep R consume consume') (start : R s t)
    (ends : ∀ s t, R s t → SameStep S (finish s) (finish' t)) (source : Source)
    (tokens : List Token) (before : Dictionary) :
    match (source.consumeAll tokens s consume finish).run before with
    | .error e after => (source.consumeAll tokens t consume' finish').run before = .error e after
    | .ok a after =>
      ∃ b, (source.consumeAll tokens t consume' finish').run before = .ok b after ∧ S a b := by
  have same := Expansion.sameEnd_expandWithin source inStep (p := ⟨before, s⟩)
    (q := ⟨before, t⟩) ⟨rfl, start⟩ source.limit.toNat [] none tokens
  rw [run_consumeAll, run_consumeAll, expand, expand]
  rcases same.ends with ⟨u, p, q, left, right, dictionaries, related⟩ |
    ⟨e, p, q, left, right, dictionaries, -⟩
  · rw [left, right]
    dsimp only
    rw [← dictionaries]
    rcases (ends _ _ related).ends with ⟨a, b, left, right, alike⟩ | ⟨e, left, right⟩
    · rw [left, right]
      exact ⟨b, rfl, alike⟩
    · rw [left, right]
  · rw [left, right]
    dsimp only
    rw [dictionaries]

/-- On like dictionaries, two consumers in step leave like dictionaries; they fail with the same
error, or both give a result. -/
theorem consumeAll_on {like : Definition → Definition → Prop} {R : σ → τ → Prop}
    {S : α → β → Prop} {consume : σ → Item → Except SourceError σ}
    {consume' : τ → Item → Except SourceError τ} {finish : σ → Except SourceError α}
    {finish' : τ → Except SourceError β} {s : σ} {t : τ} {a b : Dictionary}
    (likeness : IsLikeness like) (inStep : Expansion.InStepOn like R consume consume')
    (start : R s t) (ends : ∀ s t, R s t → SameStep S (finish s) (finish' t)) (source : Source)
    (tokens : List Token) (alike : a.Like like b) :
    Matched S Eq (Dictionary.Like like) ((source.consumeAll tokens s consume finish).run a)
      ((source.consumeAll tokens t consume' finish').run b) := by
  have together : Expansion.TogetherOn like R ⟨a, s⟩ ⟨b, t⟩ := ⟨alike, start⟩
  have same := Expansion.sameEnd_expandWithin_on likeness source inStep together
    source.limit.toNat [] none tokens
  rw [run_consumeAll, run_consumeAll, expand, expand]
  rcases same.ends with ⟨u, p, q, left, right, dictionaries, related⟩ |
    ⟨e, p, q, left, right, dictionaries, -⟩
  · rw [left, right]
    dsimp only
    rcases (ends _ _ related).ends with ⟨x, y, left, right, results⟩ | ⟨e, left, right⟩
    · rw [left, right]
      exact .ok results dictionaries
    · rw [left, right]
      exact .error rfl dictionaries
  · rw [left, right]
    exact .error rfl dictionaries

end TapeLang.Source
