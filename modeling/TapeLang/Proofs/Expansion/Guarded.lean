import TapeLang.Proofs.Expansion.Lockstep
import TapeLang.Proofs.Token.Guarded

/-! Expansion with procedures in the place of macros. It goes on like the expansion with the macros,
until the guard of such a procedure stops it inside of its own body. -/
namespace TapeLang

/-- A place without the text of its line. -/
def Location.unstated (l : Location) : Location := { l with statement := [] }

/-- A definition, or a procedure in the place of a macro. -/
structure Definition.Guards (d e : Definition) : Prop where
  kind : d.kind.Guards e.kind
  name : e.name = d.name
  params : e.params = d.params
  body : e.body = d.body

theorem DefinitionKind.Guards.functionForm_iff {kind kind' : DefinitionKind}
    (guards : kind.Guards kind') : kind' = .functionForm ↔ kind = .functionForm := by
  cases guards with
  | same => rfl
  | turned => exact ⟨nofun, nofun⟩

theorem DefinitionKind.Guards.procedureForm {kind kind' : DefinitionKind}
    (guards : kind.Guards kind') (form : kind = .procedureForm) : kind' = .procedureForm := by
  cases guards with
  | same => exact form
  | turned => rfl

theorem Token.Guards.endOfText_iff {token token' : Token} (guard : token.Guards token') :
    token'.kind = .endOfText ↔ token.kind = .endOfText := by
  cases guard with
  | same => rfl
  | turned => exact ⟨nofun, nofun⟩

/-- Items that procedures leave in the place of macros. -/
inductive Item.Guards : Item → Item → Prop where
  | plain {text : Text} {place place' : Location} :
      place'.unstated = place.unstated → Guards (.plain text place) (.plain text place')
  | call {d e : Definition} {args : List Text} {place place' : Location} :
      d.Guards e → place'.unstated = place.unstated →
      Guards (.call d args place) (.call e args place')

namespace Definition.Guards

variable {d e : Definition}

theorem instantiate (guards : d.Guards e) (args : List Text) :
    e.instantiate args = d.instantiate args := by
  unfold Definition.instantiate Definition.arityFault
  rw [guards.params, guards.name, guards.body]

theorem bodyTokens (guards : d.Guards e) (file : Text) (args : List Text)
    (place place' : Location) :
    (Expansion.bodyTokens file e args place').toOption =
      (Expansion.bodyTokens file d args place).toOption := by
  unfold Expansion.bodyTokens
  rw [guards.instantiate]
  cases d.instantiate args <;> rfl

end Definition.Guards

/-- A line declares a definition of either kind, or none. -/
theorem readDeclaration_guards {kind kind' : DefinitionKind} (kinds : kind.Guards kind')
    (value : Text) (place place' : Location) :
    Option.Rel Definition.Guards (readDeclaration kind value place).toOption
      (readDeclaration kind' value place').toOption := by
  unfold readDeclaration
  dsimp only
  split
  · exact .none
  · split
    · exact .none
    · split
      · exact .none
      · split
        · exact .none
        · exact .some ⟨kinds, rfl, rfl, rfl⟩

/-- What is declared is new to both dictionaries, or to neither. -/
theorem Dictionary.Like.declare_guards {a b : Dictionary} {d e : Definition}
    (like : a.Like Definition.Guards b) (guards : d.Guards e) :
    Option.Rel (Like Definition.Guards) (a.declare d).toOption (b.declare e).toOption := by
  rcases like.find? Definition.Guards.name d.name with ⟨absent, -⟩ | ⟨_, _, left, right, -⟩
  · obtain ⟨after, declared⟩ := exists_declare_of_absent absent
    obtain ⟨after', declared', same⟩ :=
      like.exists_declare Definition.Guards.name guards declared
    rw [declared, declared']
    exact .some same
  · rw [← guards.name] at right
    rw [declare_of_found left, declare_of_found right]
    exact .none

/-- A reading with procedures in the place of macros ends like the reading with the macros, both in
progress with the dictionaries related or both in an error, or the guard of a procedure stops it. -/
inductive Guarded {σ τ : Type} (R : σ → τ → Prop) :
    EStateM.Result SourceError (Progress σ) Unit →
    EStateM.Result SourceError (Progress τ) Unit → Prop where
  | ok {p : Progress σ} {q : Progress τ} :
      Expansion.TogetherOn Definition.Guards R p q → Guarded R (.ok () p) (.ok () q)
  | error {e e' : SourceError} {p : Progress σ} {q : Progress τ} :
      Guarded R (.error e p) (.error e' q)
  | stopped {x : EStateM.Result SourceError (Progress σ) Unit} {name : Text} {place : Location}
      {q : Progress τ} : Guarded R x (.error ⟨.recursiveProcedure name, some place⟩ q)

namespace Expansion

variable {σ τ : Type} {R : σ → τ → Prop}
variable {consume : σ → Item → Except SourceError σ} {consume' : τ → Item → Except SourceError τ}
variable {source source' : Source} {p : Progress σ} {q : Progress τ}
variable {descend : Option (Descend σ)} {descend' : Option (Descend τ)} {chain : List Text}
variable {d e : Definition} {location location' : Location} {origin origin' : Option Location}

theorem guarded_bind {x : Reading σ Unit} {y : Reading τ Unit} {f : Reading σ Unit}
    {g : Reading τ Unit} (first : Guarded R (x.run p) (y.run q))
    (next : ∀ u v, TogetherOn Definition.Guards R u v → Guarded R (f.run u) (g.run v)) :
    Guarded R ((x >>= fun _ => f).run p) ((y >>= fun _ => g).run q) := by
  rw [EStateM.run_bind, EStateM.run_bind]
  generalize x.run p = left, y.run q = right at first
  cases first with
  | ok together => exact next _ _ together
  | error => exact .error
  | stopped => exact .stopped

/-- Two consumers that take related items alike, from related states on, or both refuse them. -/
def InGuard (R : σ → τ → Prop) (consume : σ → Item → Except SourceError σ)
    (consume' : τ → Item → Except SourceError τ) : Prop :=
  ∀ s t item item', item.Guards item' → R s t →
    Option.Rel R (consume s item).toOption (consume' t item').toOption

theorem guarded_feed (inGuard : InGuard R consume consume')
    (together : TogetherOn Definition.Guards R p q) {item item' : Item}
    (guards : item.Guards item') :
    Guarded R ((feed consume item).run p) ((feed consume' item').run q) := by
  have taken := inGuard _ _ _ _ guards together.2
  rw [feed, feed, EStateM.run_bind, EStateM.run_bind, EStateM.run_get, EStateM.run_get]
  dsimp only
  cases left : consume p.consumed item <;> cases right : consume' q.consumed item' <;>
    rw [left, right] at taken <;> cases taken
  · exact .error
  · exact .ok ⟨together.1, ‹_›⟩

theorem guarded_declare (together : TogetherOn Definition.Guards R p q)
    {kind kind' : DefinitionKind} (kinds : kind.Guards kind') (value : Text)
    (location location' : Location) :
    Guarded R ((declare kind value location).run p) ((declare kind' value location').run q) := by
  have read := readDeclaration_guards kinds value location location'
  rw [declare, declare, EStateM.run_bind, EStateM.run_bind, EStateM.run_get, EStateM.run_get]
  dsimp only
  generalize readDeclaration kind value location = left,
    readDeclaration kind' value location' = right at read ⊢
  cases left <;> cases right <;> cases read
  · exact .error
  · rename_i d e guards
    have declared := together.1.declare_guards guards
    rw [show (Except.ok d >>= p.dictionary.declare) = p.dictionary.declare d from rfl,
      show (Except.ok e >>= q.dictionary.declare) = q.dictionary.declare e from rfl]
    generalize p.dictionary.declare d = left, q.dictionary.declare e = right at declared ⊢
    cases left <;> cases right <;> cases declared
    · exact .error
    · exact .ok ⟨‹_›, together.2⟩

/-- The bodies below two readings end alike, or the guard stops the second one. -/
def GuardedDescent (R : σ → τ → Prop) (descend : Option (Descend σ))
    (descend' : Option (Descend τ)) : Prop :=
  Option.Rel (fun f g => ∀ chain location location' tokens p q,
    location'.unstated = location.unstated → TogetherOn Definition.Guards R p q →
    Guarded R ((f chain location tokens).run p) ((g chain location' tokens).run q))
    descend descend'

theorem guarded_expandCall (inGuard : InGuard R consume consume')
    (sameFile : source'.file = source.file) (together : TogetherOn Definition.Guards R p q)
    (below : GuardedDescent R descend descend') (chain : List Text) (guards : d.Guards e)
    (args : List Text) (place : location'.unstated = location.unstated) :
    Guarded R ((expandCall source consume descend chain d args location).run p)
      ((expandCall source' consume' descend' chain e args location').run q) := by
  unfold expandCall
  rw [guards.name, guards.params]
  by_cases form : d.kind = .functionForm
  · rw [if_pos form, if_pos (guards.kind.functionForm_iff.mpr form)]
    by_cases arity : args.length = d.params.length
    · rw [if_pos arity, if_pos arity]
      exact guarded_feed inGuard together (.call guards place)
    · rw [if_neg arity, if_neg arity]
      exact .error
  · rw [if_neg form, if_neg (form ∘ guards.kind.functionForm_iff.mp)]
    by_cases stopped : e.kind = .procedureForm ∧ d.name ∈ chain
    · rw [if_pos stopped]
      exact .stopped
    · rw [if_neg stopped,
        if_neg fun recursive => stopped ⟨guards.kind.procedureForm recursive.1, recursive.2⟩]
      cases below with
      | none => exact .error
      | some inner =>
        have made := guards.bodyTokens source.file args location location'
        dsimp only
        rw [sameFile]
        generalize bodyTokens source.file d args location = left,
          bodyTokens source.file e args location' = right at made ⊢
        cases left <;> cases right <;> cases made
        · exact .error
        · exact inner _ _ _ _ _ _ place together

theorem guarded_readWord (inGuard : InGuard R consume consume')
    (sameFile : source'.file = source.file) (together : TogetherOn Definition.Guards R p q)
    (below : GuardedDescent R descend descend') (chain : List Text) (word : Text)
    (place : location'.unstated = location.unstated) :
    Guarded R ((readWord source consume descend chain word location).run p)
      ((readWord source' consume' descend' chain word location').run q) := by
  unfold readWord
  cases splitCall? word with
  | none => exact .error
  | some parts =>
    obtain ⟨name, raw⟩ := parts
    simp only [EStateM.run_bind, EStateM.run_get]
    rcases together.1.find? Definition.Guards.name name with
      ⟨left, right⟩ | ⟨d, e, left, right, guards⟩
    · rw [left, right]
      cases raw with
      | none => exact guarded_feed inGuard together (.plain place)
      | some raw => exact .error
    · rw [left, right]
      exact guarded_expandCall inGuard sameFile together below _ guards _ place

theorem unstated_place (sameFile : source'.file = source.file)
    (origins : Option.Rel (fun l l' => l'.unstated = l.unstated) origin origin')
    {token token' : Token} (guard : token.Guards token') :
    (source'.place origin' token').unstated = (source.place origin token).unstated := by
  cases origins with
  | some same => exact same
  | none => cases guard <;> simp [Source.place, Source.locate, Location.unstated, sameFile]

theorem guarded_readToken (inGuard : InGuard R consume consume')
    (sameFile : source'.file = source.file) (together : TogetherOn Definition.Guards R p q)
    {budget : Nat} (below : GuardedDescent R (descendWithin source consume budget)
      (descendWithin source' consume' budget)) (chain : List Text)
    (origins : Option.Rel (fun l l' => l'.unstated = l.unstated) origin origin')
    {token token' : Token} (guard : token.Guards token') :
    Guarded R ((readToken source consume budget chain origin token).run p)
      ((readToken source' consume' budget chain origin' token').run q) := by
  have place := unstated_place sameFile origins guard
  unfold readToken
  cases guard with
  | turned => exact guarded_declare together .turned _ _ _
  | same =>
    cases token.kind with
    | endOfText => exact .ok together
    | declaration kind => exact guarded_declare together (.same kind) _ _ _
    | word => exact guarded_readWord inGuard sameFile together below chain _ place
    | symbol => exact guarded_feed inGuard together (.plain place)

/-- Tokens with procedures in the place of macros expand like those with the macros, until the guard
stops the expansion. -/
theorem guarded_expandWithin (inGuard : InGuard R consume consume')
    (sameFile : source'.file = source.file) (together : TogetherOn Definition.Guards R p q)
    (budget : Nat) (chain : List Text)
    (origins : Option.Rel (fun l l' => l'.unstated = l.unstated) origin origin')
    {tokens tokens' : List Token} (guards : List.Forall₂ Token.Guards tokens tokens') :
    Guarded R ((expandWithin source consume budget chain origin tokens).run p)
      ((expandWithin source' consume' budget chain origin' tokens').run q) := by
  -- the budget drops in a body, the tokens become fewer beside it
  induction budget generalizing chain origin origin' tokens tokens' p q with
  | zero | succ budget ihBody =>
    induction guards generalizing p q with
    | nil =>
      rw [expandWithin_nil, expandWithin_nil]
      exact .ok together
    | @cons token token' rest rest' guard _ ihRest =>
      by_cases last : token.kind = .endOfText
      · rw [expandWithin_endOfText last, expandWithin_endOfText (guard.endOfText_iff.mpr last)]
        exact .ok together
      · rw [expandWithin_cons last, expandWithin_cons (last ∘ guard.endOfText_iff.mp)]
        refine guarded_bind (guarded_readToken inGuard sameFile together ?_ chain origins guard)
          fun _ _ together => ihRest together
        first
          | exact .none
          | exact .some fun _ _ _ _ _ _ place together =>
              ihBody together _ (.some place) (Token.guards_same _)

end Expansion
end TapeLang
