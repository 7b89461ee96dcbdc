import TapeLang.Proofs.Expansion.Reading
import TapeLang.Proofs.Inlining.Block

/-! What the consumer refuses. Tokens that expand to items are read as far as the consumer takes the
items, and the reading fails as the consumer does: a program whose brackets are not balanced is
refused, and for a bracket. -/
namespace TapeLang

namespace Expansion

variable {σ : Type} {source : Source} {consume : σ → Item → Except SourceError σ}
variable {budget : Nat} {chain : List Text} {origin : Option Location}

theorem run_feed_of_error {item : Item} {p : Progress σ} {e : SourceError}
    (refused : consume p.consumed item = .error e) :
    (feed consume item).run p = .error e p := by
  rw [feed, EStateM.run_bind, EStateM.run_get]
  dsimp only
  rw [refused]
  rfl

section

variable {token : Token} {name : Text} {raw : Option Text} {d : Definition} {p : Progress σ}

theorem run_readToken_plainWord (kind : token.kind = .word)
    (split : splitCall? token.value = some (name, none)) (absent : p.dictionary.find? name = none) :
    (readToken source consume budget chain origin token).run p =
      (feed consume (.plain name (source.place origin token))).run p := by
  simp only [readToken, kind, readWord, split, EStateM.run_bind, EStateM.run_get, absent]

theorem run_readToken_declaration {kind : DefinitionKind} {before between : Dictionary} {s : σ}
    (declares : token.kind = .declaration kind)
    (read : readDeclaration kind token.value (source.place origin token) = .ok d)
    (declared : before.declare d = .ok between) :
    (readToken source consume budget chain origin token).run ⟨before, s⟩ =
      .ok () ⟨between, s⟩ := by
  simp only [readToken, declares]
  exact run_declare_eq_ok_iff.mpr ⟨⟨_, read, declared⟩, rfl⟩

theorem run_readToken_call (kind : token.kind = .word)
    (split : splitCall? token.value = some (name, raw)) (found : p.dictionary.find? name = some d)
    (form : d.kind = .functionForm)
    (arity : (argumentList (raw.getD [])).length = d.params.length) :
    (readToken source consume budget chain origin token).run p =
      (feed consume (.call d (argumentList (raw.getD [])) (source.place origin token))).run p := by
  simp only [readToken, kind, readWord, split, EStateM.run_bind, EStateM.run_get, found, expandCall,
    form, arity, if_true]

theorem run_readToken_body {tokens : List Token} (kind : token.kind = .word)
    (split : splitCall? token.value = some (name, raw)) (found : p.dictionary.find? name = some d)
    (form : d.kind ≠ .functionForm) (recursive : ¬ (d.kind = .procedureForm ∧ d.name ∈ chain))
    (made : bodyTokens source.file d (argumentList (raw.getD [])) (source.place origin token) =
      .ok tokens) :
    (readToken source consume (budget + 1) chain origin token).run p =
      (expandWithin source consume budget (d.name :: chain) (some (source.place origin token))
        tokens).run p := by
  simp only [readToken, kind, readWord, split, EStateM.run_bind, EStateM.run_get, found, expandCall,
    form, recursive, if_false, descendWithin, made]

end

/-- A token that makes an item fails with the item, or with the tokens that come after. -/
theorem run_expandWithin_fed {token : Token} {rest : List Token} {dictionary : Dictionary}
    {item : Item} {items : List Item} {s : σ} {e : SourceError}
    (unended : token.kind ≠ .endOfText)
    (read : (readToken source consume budget chain origin token).run ⟨dictionary, s⟩ =
      (feed consume item).run ⟨dictionary, s⟩)
    (later : ∀ {t : σ}, items.foldlM consume t = .error e → ∃ q,
      (expandWithin source consume budget chain origin rest).run ⟨dictionary, t⟩ = .error e q)
    (refused : (item :: items).foldlM consume s = .error e) :
    ∃ q, (expandWithin source consume budget chain origin (token :: rest)).run ⟨dictionary, s⟩ =
      .error e q := by
  rw [expandWithin_cons unended]
  rcases foldlM_cons_eq_error_iff.mp refused with here | ⟨t, taken, refusedLater⟩
  · exact ⟨_, run_bind_of_error (read.trans (run_feed_of_error here)) _⟩
  · obtain ⟨q, failed⟩ := later refusedLater
    have fed : (feed consume item).run ⟨dictionary, s⟩ = .ok () ⟨dictionary, t⟩ :=
      run_feed_eq_ok_iff.mpr ⟨rfl, taken⟩
    exact ⟨q, (run_bind_of_ok (read.trans fed) _).trans failed⟩

/-- A token that stands for a body fails with the body, or with the tokens that come after. -/
theorem run_expandWithin_entered {token : Token} {rest : List Token} {before between : Dictionary}
    {body : Reading σ Unit} {inner items : List Item} {s : σ} {e : SourceError}
    (unended : token.kind ≠ .endOfText)
    (read : ∀ s, (readToken source consume budget chain origin token).run ⟨before, s⟩ =
      body.run ⟨before, s⟩)
    (inside : ∀ {s : σ}, inner.foldlM consume s = .error e → ∃ q,
      body.run ⟨before, s⟩ = .error e q)
    (passed : ∀ {s t : σ}, inner.foldlM consume s = .ok t →
      body.run ⟨before, s⟩ = .ok () ⟨between, t⟩)
    (later : ∀ {t : σ}, items.foldlM consume t = .error e → ∃ q,
      (expandWithin source consume budget chain origin rest).run ⟨between, t⟩ = .error e q)
    (refused : (inner ++ items).foldlM consume s = .error e) :
    ∃ q, (expandWithin source consume budget chain origin (token :: rest)).run ⟨before, s⟩ =
      .error e q := by
  rw [expandWithin_cons unended]
  rcases foldlM_append_eq_error_iff.mp refused with here | ⟨t, taken, refusedLater⟩
  · obtain ⟨q, failed⟩ := inside here
    exact ⟨q, run_bind_of_error ((read _).trans failed) _⟩
  · obtain ⟨q, failed⟩ := later refusedLater
    exact ⟨q, (run_bind_of_ok ((read _).trans (passed taken)) _).trans failed⟩

/-- A reading fails where the consumer refuses an item. -/
theorem run_expandWithin_of_refused {tokens : List Token} {before after : Dictionary}
    {items : List Item} (expands : Expands source budget chain origin tokens before items after)
    {s : σ} {e : SourceError} (refused : items.foldlM consume s = .error e) :
    ∃ q, (expandWithin source consume budget chain origin tokens).run ⟨before, s⟩ =
      .error e q := by
  induction expands generalizing s with
  | nil | endOfText => cases refused
  | declaration kind read declared _ ih =>
    obtain ⟨q, failed⟩ := ih refused
    rw [expandWithin_cons (by simp [kind])]
    exact ⟨q, (run_bind_of_ok (run_readToken_declaration kind read declared) _).trans failed⟩
  | symbol kind _ ih =>
    exact run_expandWithin_fed (by simp [kind]) (by simp only [readToken, kind]) ih refused
  | plainWord kind split absent _ ih =>
    exact run_expandWithin_fed (by simp [kind]) (run_readToken_plainWord kind split absent) ih
      refused
  | call kind split found form arity _ ih =>
    exact run_expandWithin_fed (by simp [kind])
      (run_readToken_call kind split found form arity) ih refused
  | body kind split found form recursive made inner _ ihBody ihRest =>
    exact run_expandWithin_entered (by simp [kind])
      (fun _ => run_readToken_body kind split found form recursive made) ihBody
      (run_expandWithin_of_expands inner) ihRest refused

end Expansion

namespace Source

variable {source : Source} {tokens : List Token} {before after : Dictionary} {items : List Item}

/-- A program is refused where its binder refuses an item. -/
theorem exists_parse_of_refused {e : SourceError}
    (expands : Expansion.Expands source source.limit.toNat [] none tokens before items after)
    (refused : items.foldlM LoopBinder.consume {} = .error e) :
    ∃ left, (source.parse tokens).run before = .error e left := by
  obtain ⟨q, failed⟩ := Expansion.run_expandWithin_of_refused expands refused
  rw [run_parse, run_consumeAll, expand, failed]
  exact ⟨_, rfl⟩

end Source

/-- Which brackets have no partner: closing ones, if there are such, and opening ones otherwise. -/
def unmatched (ops : List Operation) : LoopSide :=
  if (openLoops 0 ops).isSome then .opening else .closing

namespace LoopBinder

variable {b : LoopBinder} {items : List Item} {ops : List Operation}

theorem exists_refused (spelled : List.Forall₂ Spells items ops)
    (unopened : openLoops b.pending.length ops = none) :
    ∃ place, items.foldlM consume b = .error ⟨.unbalancedLoop .closing, place⟩ := by
  induction spelled generalizing b with
  | nil => cases unopened
  | @cons item op _ _ first _ ih =>
    obtain ⟨location, made⟩ := first
    have consumed : b.consume item = b.emit { op, location } := by rw [consume, made]; rfl
    rw [openLoops_cons] at unopened
    cases emitted : b.emit { op, location } with
    | error e =>
      obtain ⟨-, -, rfl⟩ := emit_eq_error_iff.mp emitted
      exact ⟨location, foldlM_cons_eq_error_iff.mpr (.inl (consumed.trans emitted))⟩
    | ok next =>
      rw [openLoops_emit emitted, Option.bind_some] at unopened
      obtain ⟨place, refused⟩ := ih unopened
      exact ⟨place, foldlM_cons_eq_error_iff.mpr (.inr ⟨next, consumed.trans emitted, refused⟩)⟩

end LoopBinder

/-- Tokens that expand to operations whose brackets are not balanced are refused for a bracket. -/
theorem Source.exists_parse_of_not_balanced {source : Source} {tokens : List Token}
    {before after : Dictionary} {items : List Item} {ops : List Operation}
    (expands : Expansion.Expands source source.limit.toNat [] none tokens before items after)
    (spelled : List.Forall₂ LoopBinder.Spells items ops) (unbalanced : ¬ Balanced ops) :
    ∃ e left, (source.parse tokens).run before = .error e left ∧
      e.fault = .unbalancedLoop (unmatched ops) := by
  cases opened : openLoops 0 ops with
  | none =>
    obtain ⟨place, refused⟩ := LoopBinder.exists_refused (b := {}) spelled opened
    obtain ⟨left, failed⟩ := exists_parse_of_refused expands refused
    exact ⟨_, left, failed, by simp [unmatched, opened]⟩
  | some loops =>
    obtain ⟨binder, taken, pending⟩ := LoopBinder.exists_foldlM (b := {}) spelled opened
    have some_loop : binder.pending ≠ [] := by
      intro closed
      rw [closed] at pending
      exact unbalanced (opened.trans (congrArg some pending.symm))
    obtain ⟨e, left, failed, fault⟩ := parse_open_iff.mpr ⟨items, binder, after, expands, taken,
      some_loop⟩
    exact ⟨e, left, failed, by simp [unmatched, opened, fault]⟩

end TapeLang
