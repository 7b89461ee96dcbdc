import TapeLang.Expansion
import TapeLang.Proofs.Effect

/-! Expansion as a relation. A derivation follows the tokens and the bodies of the calls
among them; it says which items come out and which dictionary is left. Reading succeeds
exactly when there is a derivation whose items the consumer takes. -/
namespace TapeLang

/-- The place of an item made from a token: that of the outermost call, if there is one. -/
def Source.place (source : Source) (origin : Option Location) (token : Token) : Location :=
  origin.getD (source.locate token)

namespace Expansion

/-- `Expands source budget chain origin tokens before items after`: within a budget of levels
the tokens give the items, and their declarations turn one dictionary into the other. -/
inductive Expands (source : Source) : Nat → List Text → Option Location → List Token →
    Dictionary → List Item → Dictionary → Prop where
  | nil {budget chain origin dictionary} :
      Expands source budget chain origin [] dictionary [] dictionary
  | endOfText {budget chain origin dictionary token rest} :
      token.kind = .endOfText →
      Expands source budget chain origin (token :: rest) dictionary [] dictionary
  | declaration {budget chain origin before between after items token rest kind d} :
      token.kind = .declaration kind →
      readDeclaration kind token.value (source.place origin token) = .ok d →
      before.declare d = .ok between →
      Expands source budget chain origin rest between items after →
      Expands source budget chain origin (token :: rest) before items after
  | symbol {budget chain origin before after items token rest} :
      token.kind = .symbol →
      Expands source budget chain origin rest before items after →
      Expands source budget chain origin (token :: rest) before
        (.plain token.value (source.place origin token) :: items) after
  | plainWord {budget chain origin before after items token rest name} :
      token.kind = .word → splitCall? token.value = some (name, none) →
      before.find? name = none →
      Expands source budget chain origin rest before items after →
      Expands source budget chain origin (token :: rest) before
        (.plain name (source.place origin token) :: items) after
  | call {budget chain origin before after items token rest name raw d} :
      token.kind = .word → splitCall? token.value = some (name, raw) →
      before.find? name = some d → d.kind = .functionForm →
      (argumentList (raw.getD [])).length = d.params.length →
      Expands source budget chain origin rest before items after →
      Expands source budget chain origin (token :: rest) before
        (.call d (argumentList (raw.getD [])) (source.place origin token) :: items) after
  | body {budget chain origin before between after inner items token rest name raw d tokens} :
      token.kind = .word → splitCall? token.value = some (name, raw) →
      before.find? name = some d → d.kind ≠ .functionForm →
      ¬ (d.kind = .procedureForm ∧ d.name ∈ chain) →
      bodyTokens source.file d (argumentList (raw.getD [])) (source.place origin token) =
        .ok tokens →
      Expands source budget (d.name :: chain) (some (source.place origin token)) tokens before
        inner between →
      Expands source (budget + 1) chain origin rest between items after →
      Expands source (budget + 1) chain origin (token :: rest) before (inner ++ items) after

theorem bodyTokens_eq_ok_iff {file : Text} {d : Definition} {args : List Text}
    {place : Location} {tokens : List Token} :
    bodyTokens file d args place = .ok tokens ↔
      ∃ text, d.instantiate args = .ok text ∧ tokenize file text = .ok tokens := by
  unfold bodyTokens
  cases d.instantiate args with
  | error e => exact ⟨nofun, by rintro ⟨_, ⟨⟩, _⟩⟩
  | ok text => exact ⟨fun lexed => ⟨text, rfl, lexed⟩, by rintro ⟨_, ⟨⟩, lexed⟩; exact lexed⟩

variable {σ τ : Type} {source : Source} {consume : σ → Item → Except SourceError σ}
variable {budget : Nat} {chain : List Text} {origin : Option Location}

/-- The expansion of bodies that a budget leaves. -/
def descendWithin (source : Source) (consume : σ → Item → Except SourceError σ) :
    Nat → Option (Descend σ)
  | 0 => none
  | budget + 1 => some fun chain location tokens =>
      expandWithin source consume budget chain (some location) tokens

/-- What one token does that does not end the text. -/
def readToken (source : Source) (consume : σ → Item → Except SourceError σ) (budget : Nat)
    (chain : List Text) (origin : Option Location) (token : Token) : Reading σ Unit :=
  match token.kind with
  | .endOfText => pure ()
  | .declaration kind => declare kind token.value (source.place origin token)
  | .word =>
    readWord source consume (descendWithin source consume budget) chain token.value
      (source.place origin token)
  | .symbol => feed consume (.plain token.value (source.place origin token))

theorem expandWithin_nil : expandWithin source consume budget chain origin [] = pure () := by
  cases budget <;> rfl

theorem expandWithin_endOfText {token : Token} (kind : token.kind = .endOfText)
    (rest : List Token) :
    expandWithin source consume budget chain origin (token :: rest) = pure () := by
  cases budget <;> simp only [expandWithin, expandLevel, kind]

theorem expandWithin_cons {token : Token} (kind : token.kind ≠ .endOfText)
    (rest : List Token) :
    expandWithin source consume budget chain origin (token :: rest) =
      readToken source consume budget chain origin token >>= fun _ =>
        expandWithin source consume budget chain origin rest := by
  cases budget <;> simp only [expandWithin, expandLevel, readToken, descendWithin, Source.place] <;>
    cases same : token.kind <;> first | exact absurd same kind | rfl

theorem run_feed_eq_ok_iff {item : Item} {p q : Progress σ} :
    (feed consume item).run p = .ok () q ↔
      q.dictionary = p.dictionary ∧ consume p.consumed item = .ok q.consumed := by
  obtain ⟨dictionary, consumed⟩ := p
  obtain ⟨dictionary', consumed'⟩ := q
  rw [feed, EStateM.run_bind, EStateM.run_get]
  dsimp only
  cases consume consumed item with
  | error e => exact ⟨nofun, by rintro ⟨-, ⟨⟩⟩⟩
  | ok next =>
    constructor
    · rintro ⟨⟩
      exact ⟨rfl, rfl⟩
    · rintro ⟨rfl, ⟨⟩⟩
      rfl

theorem run_declare_eq_ok_iff {kind : DefinitionKind} {value : Text} {location : Location}
    {p q : Progress σ} :
    (declare kind value location).run p = .ok () q ↔
      (∃ d, readDeclaration kind value location = .ok d ∧
        p.dictionary.declare d = .ok q.dictionary) ∧ q.consumed = p.consumed := by
  obtain ⟨dictionary, consumed⟩ := p
  obtain ⟨dictionary', consumed'⟩ := q
  rw [declare, EStateM.run_bind, EStateM.run_get]
  dsimp only
  cases readDeclaration kind value location with
  | error e => exact ⟨nofun, by rintro ⟨⟨_, ⟨⟩, _⟩, _⟩⟩
  | ok d =>
    rw [show (Except.ok d >>= dictionary.declare) = dictionary.declare d from rfl]
    cases declared : dictionary.declare d with
    | error e =>
      refine ⟨nofun, ?_⟩
      rintro ⟨⟨_, ⟨⟩, ended⟩, -⟩
      rw [declared] at ended
      cases ended
    | ok next =>
      constructor
      · rintro ⟨⟩
        exact ⟨⟨d, rfl, declared⟩, rfl⟩
      · rintro ⟨⟨_, ⟨⟩, ended⟩, rfl⟩
        rw [declared] at ended
        cases ended
        rfl

/-- The three ways in which a word is read. -/
theorem run_readWord_eq_ok_iff {descend : Option (Descend σ)} {word : Text}
    {location : Location} {p q : Progress σ} :
    (readWord source consume descend chain word location).run p = .ok () q ↔
      ∃ name raw, splitCall? word = some (name, raw) ∧
      ((raw = none ∧ p.dictionary.find? name = none ∧
        (feed consume (.plain name location)).run p = .ok () q) ∨
      ∃ d, p.dictionary.find? name = some d ∧
      ((d.kind = .functionForm ∧ (argumentList (raw.getD [])).length = d.params.length ∧
        (feed consume (.call d (argumentList (raw.getD [])) location)).run p = .ok () q) ∨
      (d.kind ≠ .functionForm ∧ ¬ (d.kind = .procedureForm ∧ d.name ∈ chain) ∧
        ∃ expand tokens, descend = some expand ∧
          bodyTokens source.file d (argumentList (raw.getD [])) location = .ok tokens ∧
          (expand (d.name :: chain) location tokens).run p = .ok () q))) := by
  unfold readWord
  cases split : splitCall? word with
  | none => exact ⟨nofun, by rintro ⟨_, _, ⟨⟩, _⟩⟩
  | some parts =>
    obtain ⟨name, raw⟩ := parts
    simp only [EStateM.run_bind, EStateM.run_get, Option.some.injEq, Prod.mk.injEq,
      and_assoc, exists_eq_left', exists_and_left]
    cases found : p.dictionary.find? name with
    | none =>
      cases raw with
      | none => simp
      | some raw => exact ⟨nofun, by simp⟩
    | some d =>
      simp only [reduceCtorEq, false_and, and_false, false_or, Option.some.injEq,
        exists_eq_left']
      unfold expandCall
      by_cases form : d.kind = .functionForm
      · by_cases arity : (argumentList (raw.getD [])).length = d.params.length
        · simp [form, arity]
        · simp only [form, arity, if_true, if_false]
          exact ⟨nofun, by simp⟩
      · by_cases recursive : d.kind = .procedureForm ∧ d.name ∈ chain
        · rw [if_neg form, if_pos recursive]
          exact ⟨nofun, by simp [recursive]⟩
        · rw [if_neg form, if_neg recursive]
          cases descend with
          | none => exact ⟨nofun, by simp [form]⟩
          | some expand =>
            cases made : bodyTokens source.file d (argumentList (raw.getD [])) location with
            | error e => exact ⟨nofun, by simp [form]⟩
            | ok tokens => simp [form, recursive]

theorem run_expandWithin_of_expands {tokens : List Token} {before after : Dictionary}
    {items : List Item} (expands : Expands source budget chain origin tokens before items after)
    {s t : σ} (taken : items.foldlM consume s = .ok t) :
    (expandWithin source consume budget chain origin tokens).run ⟨before, s⟩ =
      .ok () ⟨after, t⟩ := by
  induction expands generalizing s t with
  | nil =>
    cases taken
    rw [expandWithin_nil]
    rfl
  | endOfText kind =>
    cases taken
    rw [expandWithin_endOfText kind]
    rfl
  | declaration kind read declared _ ih =>
    rw [expandWithin_cons (by simp [kind]), run_bind_eq_ok_iff]
    refine ⟨(), ⟨_, s⟩, ?_, ih taken⟩
    simp only [readToken, kind]
    exact run_declare_eq_ok_iff.mpr ⟨⟨_, read, declared⟩, rfl⟩
  | symbol kind _ ih =>
    obtain ⟨u, one, rest⟩ := foldlM_cons_eq_ok_iff.mp taken
    rw [expandWithin_cons (by simp [kind]), run_bind_eq_ok_iff]
    refine ⟨(), ⟨_, u⟩, ?_, ih rest⟩
    simp only [readToken, kind]
    exact run_feed_eq_ok_iff.mpr ⟨rfl, one⟩
  | plainWord kind split absent _ ih =>
    obtain ⟨u, one, rest⟩ := foldlM_cons_eq_ok_iff.mp taken
    rw [expandWithin_cons (by simp [kind]), run_bind_eq_ok_iff]
    refine ⟨(), ⟨_, u⟩, ?_, ih rest⟩
    simp only [readToken, kind]
    exact run_readWord_eq_ok_iff.mpr ⟨_, _, split,
      .inl ⟨rfl, absent, run_feed_eq_ok_iff.mpr ⟨rfl, one⟩⟩⟩
  | call kind split found form arity _ ih =>
    obtain ⟨u, one, rest⟩ := foldlM_cons_eq_ok_iff.mp taken
    rw [expandWithin_cons (by simp [kind]), run_bind_eq_ok_iff]
    refine ⟨(), ⟨_, u⟩, ?_, ih rest⟩
    simp only [readToken, kind]
    exact run_readWord_eq_ok_iff.mpr ⟨_, _, split,
      .inr ⟨_, found, .inl ⟨form, arity, run_feed_eq_ok_iff.mpr ⟨rfl, one⟩⟩⟩⟩
  | body kind split found form recursive made _ _ ihBody ihRest =>
    obtain ⟨u, inner, rest⟩ := foldlM_append_eq_ok_iff.mp taken
    rw [expandWithin_cons (by simp [kind]), run_bind_eq_ok_iff]
    refine ⟨(), ⟨_, u⟩, ?_, ihRest rest⟩
    simp only [readToken, kind]
    exact run_readWord_eq_ok_iff.mpr ⟨_, _, split,
      .inr ⟨_, found, .inr ⟨form, recursive, _, _, rfl, made, ihBody inner⟩⟩⟩

theorem exists_expands_of_run {tokens : List Token} {p q : Progress σ}
    (ended : (expandWithin source consume budget chain origin tokens).run p = .ok () q) :
    ∃ items, Expands source budget chain origin tokens p.dictionary items q.dictionary ∧
      items.foldlM consume p.consumed = .ok q.consumed := by
  -- the budget drops in a body, the tokens become fewer beside it
  induction budget using Nat.strongRecOn generalizing chain origin tokens p q with
  | _ budget ihBody =>
    induction tokens generalizing p with
    | nil =>
      rw [expandWithin_nil] at ended
      cases ended
      exact ⟨[], .nil, rfl⟩
    | cons token rest ihRest =>
      cases kind : token.kind with
      | endOfText =>
        rw [expandWithin_endOfText kind] at ended
        cases ended
        exact ⟨[], .endOfText kind, rfl⟩
      | declaration form =>
        rw [expandWithin_cons (by simp [kind]), run_bind_eq_ok_iff] at ended
        obtain ⟨⟨⟩, u, first, second⟩ := ended
        simp only [readToken, kind] at first
        obtain ⟨⟨d, read, declared⟩, kept⟩ := run_declare_eq_ok_iff.mp first
        obtain ⟨items, expands, taken⟩ := ihRest second
        exact ⟨items, .declaration kind read declared expands, kept ▸ taken⟩
      | symbol =>
        rw [expandWithin_cons (by simp [kind]), run_bind_eq_ok_iff] at ended
        obtain ⟨⟨⟩, u, first, second⟩ := ended
        simp only [readToken, kind] at first
        obtain ⟨kept, one⟩ := run_feed_eq_ok_iff.mp first
        obtain ⟨items, expands, taken⟩ := ihRest second
        exact ⟨_, .symbol kind (kept ▸ expands), foldlM_cons_eq_ok_iff.mpr ⟨_, one, taken⟩⟩
      | word =>
        rw [expandWithin_cons (by simp [kind]), run_bind_eq_ok_iff] at ended
        obtain ⟨⟨⟩, u, first, second⟩ := ended
        simp only [readToken, kind] at first
        obtain ⟨items, expands, taken⟩ := ihRest second
        obtain ⟨name, raw, split, way⟩ := run_readWord_eq_ok_iff.mp first
        rcases way with ⟨rfl, absent, fed⟩ | ⟨d, found, way⟩
        · obtain ⟨kept, one⟩ := run_feed_eq_ok_iff.mp fed
          exact ⟨_, .plainWord kind split absent (kept ▸ expands),
            foldlM_cons_eq_ok_iff.mpr ⟨_, one, taken⟩⟩
        · rcases way with ⟨form, arity, fed⟩ | ⟨form, recursive, expand, tokens, some_level, made, inner⟩
          · obtain ⟨kept, one⟩ := run_feed_eq_ok_iff.mp fed
            exact ⟨_, .call kind split found form arity (kept ▸ expands),
              foldlM_cons_eq_ok_iff.mpr ⟨_, one, taken⟩⟩
          · cases budget with
            | zero => cases some_level
            | succ below =>
              cases some_level
              obtain ⟨innerItems, innerExpands, innerTaken⟩ := ihBody below (by omega) inner
              exact ⟨_, .body kind split found form recursive made innerExpands expands,
                foldlM_append_eq_ok_iff.mpr ⟨_, innerTaken, taken⟩⟩

/-- Reading succeeds exactly when the tokens expand to items that the consumer takes. -/
theorem run_expandWithin_eq_ok_iff {tokens : List Token} {p q : Progress σ} :
    (expandWithin source consume budget chain origin tokens).run p = .ok () q ↔
      ∃ items, Expands source budget chain origin tokens p.dictionary items q.dictionary ∧
        items.foldlM consume p.consumed = .ok q.consumed :=
  ⟨exists_expands_of_run, fun ⟨_, expands, taken⟩ => run_expandWithin_of_expands expands taken⟩

theorem foldlM_append_item (before items : List Item) :
    items.foldlM (fun items item => (.ok (items ++ [item]) : Except SourceError (List Item)))
      before = .ok (before ++ items) := by
  induction items generalizing before with
  | nil => simp [pure, Except.pure]
  | cons item rest ih =>
    rw [List.foldlM_cons]
    exact (ih _).trans (by rw [List.append_assoc, List.singleton_append])

/-- Tokens expand in one way. -/
theorem Expands.unique {tokens : List Token} {before after after' : Dictionary}
    {items items' : List Item}
    (expands : Expands source budget chain origin tokens before items after)
    (expands' : Expands source budget chain origin tokens before items' after') :
    items' = items ∧ after' = after := by
  have first := run_expandWithin_of_expands expands (foldlM_append_item [] items)
  have second := run_expandWithin_of_expands expands' (foldlM_append_item [] items')
  cases first.symm.trans second
  exact ⟨rfl, rfl⟩

end Expansion
end TapeLang
