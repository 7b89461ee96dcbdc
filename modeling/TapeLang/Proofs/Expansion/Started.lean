import TapeLang.Proofs.Expansion.Again
import TapeLang.Proofs.Expansion.Involved

/-! What a reading declared by the time it stopped, wherever it did: at a token of a body that was
being expanded, at an item that its consumer refused, or at the end. -/
namespace TapeLang.Expansion

/-- `Starts source budget chain origin tokens before after`: a front part of the expansion of the
tokens turns one dictionary into the other. It may end in the midst of a body. -/
inductive Starts (source : Source) : Nat → List Text → Option Location → List Token →
    Dictionary → Dictionary → Prop where
  | stop {budget chain origin tokens dictionary} :
      Starts source budget chain origin tokens dictionary dictionary
  | declaration {budget chain origin before between after token rest kind d} :
      token.kind = .declaration kind →
      readDeclaration kind token.value (source.place origin token) = .ok d →
      before.declare d = .ok between →
      Starts source budget chain origin rest between after →
      Starts source budget chain origin (token :: rest) before after
  | item {budget chain origin before after token rest} :
      token.kind = .symbol ∨ token.kind = .word →
      Starts source budget chain origin rest before after →
      Starts source budget chain origin (token :: rest) before after
  | body {budget chain origin before between after inner token rest name raw d tokens} :
      token.kind = .word → splitCall? token.value = some (name, raw) →
      before.find? name = some d → d.kind ≠ .functionForm →
      bodyTokens source.file d (argumentList (raw.getD [])) (source.place origin token) =
        .ok tokens →
      Expands source budget (d.name :: chain) (some (source.place origin token)) tokens before
        inner between →
      Starts source (budget + 1) chain origin rest between after →
      Starts source (budget + 1) chain origin (token :: rest) before after
  | inBody {budget chain origin before after token rest name raw d tokens} :
      token.kind = .word → splitCall? token.value = some (name, raw) →
      before.find? name = some d → d.kind ≠ .functionForm →
      bodyTokens source.file d (argumentList (raw.getD [])) (source.place origin token) =
        .ok tokens →
      Starts source budget (d.name :: chain) (some (source.place origin token)) tokens before
        after →
      Starts source (budget + 1) chain origin (token :: rest) before after

variable {σ : Type} {source : Source} {consume : σ → Item → Except SourceError σ}
variable {budget : Nat} {chain : List Text} {origin : Option Location}
variable {tokens rest : List Token} {token : Token} {p q : Progress σ} {e : SourceError}

theorem dictionary_of_feed {item : Item} (failed : (feed consume item).run p = .error e q) :
    q.dictionary = p.dictionary := by
  rw [feed, EStateM.run_bind, EStateM.run_get] at failed
  dsimp only at failed
  cases taken : consume p.consumed item with
  | ok consumed => rw [taken] at failed; cases failed
  | error e' =>
    rw [taken] at failed
    cases failed
    rfl

theorem dictionary_of_declare {kind : DefinitionKind} {value : Text} {location : Location}
    (failed : (declare kind value location).run p = .error e q) :
    q.dictionary = p.dictionary := by
  rw [declare, EStateM.run_bind, EStateM.run_get] at failed
  dsimp only at failed
  cases declared : readDeclaration kind value location >>= p.dictionary.declare with
  | ok dictionary => rw [declared] at failed; cases failed
  | error e' =>
    rw [declared] at failed
    cases failed
    rfl

/-- A call fails by itself, which declares nothing, or in its body. -/
theorem expandCall_fails {descend : Option (Descend σ)} {d : Definition} {args : List Text}
    {location : Location}
    (failed : (expandCall source consume descend chain d args location).run p = .error e q) :
    q.dictionary = p.dictionary ∨
      ∃ expand tokens, d.kind ≠ .functionForm ∧ descend = some expand ∧
        bodyTokens source.file d args location = .ok tokens ∧
        (expand (d.name :: chain) location tokens).run p = .error e q := by
  unfold expandCall at failed
  by_cases form : d.kind = .functionForm
  · left
    rw [if_pos form] at failed
    split at failed
    · exact dictionary_of_feed failed
    · cases failed
      rfl
  rw [if_neg form] at failed
  split at failed
  · cases failed
    exact .inl rfl
  cases descend with
  | none =>
    cases failed
    exact .inl rfl
  | some expand =>
    dsimp only at failed
    cases made : bodyTokens source.file d args location with
    | error e' =>
      rw [made] at failed
      cases failed
      exact .inl rfl
    | ok tokens =>
      rw [made] at failed
      exact .inr ⟨expand, tokens, form, rfl, rfl, failed⟩

theorem readWord_fails {descend : Option (Descend σ)} {word : Text} {location : Location}
    (failed : (readWord source consume descend chain word location).run p = .error e q) :
    q.dictionary = p.dictionary ∨
      ∃ name raw d expand tokens, splitCall? word = some (name, raw) ∧
        p.dictionary.find? name = some d ∧ d.kind ≠ .functionForm ∧ descend = some expand ∧
        bodyTokens source.file d (argumentList (raw.getD [])) location = .ok tokens ∧
        (expand (d.name :: chain) location tokens).run p = .error e q := by
  unfold readWord at failed
  cases split : splitCall? word with
  | none =>
    rw [split] at failed
    cases failed
    exact .inl rfl
  | some parts =>
    obtain ⟨name, raw⟩ := parts
    rw [split] at failed
    dsimp only at failed
    rw [EStateM.run_bind, EStateM.run_get] at failed
    dsimp only at failed
    cases found : p.dictionary.find? name with
    | none =>
      rw [found] at failed
      cases raw with
      | none => exact .inl (dictionary_of_feed failed)
      | some raw =>
        cases failed
        exact .inl rfl
    | some d =>
      rw [found] at failed
      rcases expandCall_fails failed with same | ⟨expand, tokens, form, level, made, inner⟩
      · exact .inl same
      · exact .inr ⟨name, raw, d, expand, tokens, rfl, found, form, level, made, inner⟩

/-- A token that was read, and what was read behind it. -/
theorem Starts.cons {after : Dictionary}
    (read : (readToken source consume budget chain origin token).run p = .ok () q)
    (goesOn : token.kind ≠ .endOfText)
    (later : Starts source budget chain origin rest q.dictionary after) :
    Starts source budget chain origin (token :: rest) p.dictionary after := by
  unfold readToken at read
  cases kind : token.kind with
  | endOfText => exact absurd kind goesOn
  | declaration form =>
    rw [kind] at read
    obtain ⟨⟨d, said, declared⟩, -⟩ := run_declare_eq_ok_iff.mp read
    exact .declaration kind said declared later
  | symbol =>
    rw [kind] at read
    obtain ⟨same, -⟩ := run_feed_eq_ok_iff.mp read
    exact .item (.inl kind) (same ▸ later)
  | word =>
    rw [kind] at read
    obtain ⟨name, raw, split, way⟩ := run_readWord_eq_ok_iff.mp read
    have fed {item : Item} (fed : (feed consume item).run p = .ok () q) :
        Starts source budget chain origin (token :: rest) p.dictionary after := by
      obtain ⟨same, -⟩ := run_feed_eq_ok_iff.mp fed
      exact .item (.inr kind) (same ▸ later)
    rcases way with ⟨-, -, plain⟩ | ⟨d, found, way⟩
    · exact fed plain
    rcases way with ⟨-, -, call⟩ | ⟨form, -, expand, tokens, level, made, inner⟩
    · exact fed call
    cases budget with
    | zero => cases level
    | succ below =>
      cases level
      obtain ⟨items, expands, -⟩ := exists_expands_of_run inner
      exact .body kind split found form made expands later

/-- A reading that ended left what a front part of its tokens declares. -/
theorem starts_of_run (source : Source) (consume : σ → Item → Except SourceError σ)
    (budget : Nat) (chain : List Text) (origin : Option Location) (tokens : List Token)
    (p : Progress σ) :
    Starts source budget chain origin tokens p.dictionary
      (endState ((expandWithin source consume budget chain origin tokens).run p)).dictionary := by
  -- the budget drops in a body, the tokens become fewer beside it
  induction budget using Nat.strongRecOn generalizing chain origin tokens p with
  | _ budget ihBody =>
    induction tokens generalizing p with
    | nil =>
      rw [expandWithin_nil]
      exact .stop
    | cons token rest ihRest =>
      by_cases kind : token.kind = .endOfText
      · rw [expandWithin_endOfText kind]
        exact .stop
      rw [expandWithin_cons kind]
      cases read : (readToken source consume budget chain origin token).run p with
      | ok _ q =>
        rw [run_bind_of_ok read]
        exact .cons read kind (ihRest q)
      | error e q =>
        rw [run_bind_of_error read]
        change Starts source budget chain origin (token :: rest) p.dictionary q.dictionary
        unfold readToken at read
        cases form : token.kind with
        | endOfText => exact absurd form kind
        | declaration =>
          rw [form] at read
          rw [dictionary_of_declare read]
          exact .stop
        | symbol =>
          rw [form] at read
          rw [dictionary_of_feed read]
          exact .stop
        | word =>
          rw [form] at read
          rcases readWord_fails read with
            same | ⟨name, raw, d, expand, tokens, split, found, kind, level, made, inner⟩
          · rw [same]
            exact .stop
          · cases budget with
            | zero => cases level
            | succ below =>
              cases level
              have started := ihBody below (Nat.lt_succ_self _) (d.name :: chain)
                (some (source.place origin token)) tokens p
              rw [inner] at started
              exact .inBody form split found kind made started

/-- A word that stands for a body is expanded as that body. -/
theorem Expands.exists_body {later left : Dictionary} {items : List Item} {name : Text}
    {raw : Option Text} {d : Definition}
    (expands : Expands source (budget + 1) chain origin (token :: rest) later items left)
    (kind : token.kind = .word) (split : splitCall? token.value = some (name, raw))
    (found : later.find? name = some d) (form : d.kind ≠ .functionForm)
    (made : bodyTokens source.file d (argumentList (raw.getD [])) (source.place origin token) =
      .ok tokens) :
    ∃ inner between items',
      Expands source budget (d.name :: chain) (some (source.place origin token)) tokens later
        inner between ∧
      Expands source (budget + 1) chain origin rest between items' left := by
  cases expands with
  | endOfText other | declaration other | symbol other => cases kind.symm.trans other
  | plainWord _ split' absent =>
    cases split.symm.trans split'
    cases found.symm.trans absent
  | call _ split' found' form' =>
    cases split.symm.trans split'
    cases found.symm.trans found'
    exact absurd form' form
  | body _ split' found' _ _ made' inner behind =>
    cases split.symm.trans split'
    cases found.symm.trans found'
    cases made.symm.trans made'
    exact ⟨_, _, _, inner, behind⟩

namespace Starts

variable {before after later left dictionary : Dictionary} {items : List Item} {texts : List Text}

theorem «extends» (starts : Starts source budget chain origin tokens before after) :
    after.Extends before := by
  induction starts with
  | stop => exact .refl _
  | declaration _ _ declared _ ih => exact ih.trans (Dictionary.extends_declare declared)
  | item _ _ ih => exact ih
  | body _ _ _ _ _ inner _ ih => exact ih.trans inner.extends
  | inBody _ _ _ _ _ _ ih => exact ih

/-- What was begun, and can be expanded as a whole behind that, has declared nothing. -/
theorem quiet_of_again (starts : Starts source budget chain origin tokens before after)
    (again : Expands source budget chain origin tokens later items left)
    (extended : later.Extends after) : before = after := by
  induction starts generalizing later items left with
  | stop => rfl
  | declaration kind read declared rest ih =>
    cases again with
    | endOfText last => cases kind.symm.trans last
    | symbol other | plainWord other | call other | body other => cases kind.symm.trans other
    | declaration kind' read' declared' =>
      cases kind.symm.trans kind'
      cases read.symm.trans read'
      exact absurd declared' (Dictionary.declare_ne_ok declared (extended.trans rest.extends))
  | item kind _ ih =>
    cases again with
    | endOfText other | declaration other => simp [other] at kind
    | symbol _ rest | plainWord _ _ _ rest | call _ _ _ _ _ rest => exact ih rest extended
    | body _ _ _ _ _ _ inner rest => exact ih rest (inner.extends.trans extended)
  | body kind split found form made inner rest ih =>
    have known := Dictionary.find?_extends (extended.trans (rest.extends.trans inner.extends)) found
    obtain ⟨_, _, _, inner', rest'⟩ := again.exists_body kind split known form made
    have first := inner.quiet_of_again inner' (extended.trans rest.extends)
    exact first.trans (ih rest' (inner'.extends.trans extended))
  | inBody kind split found form made inner ih =>
    have known := Dictionary.find?_extends (extended.trans inner.extends) found
    obtain ⟨_, _, _, inner', -⟩ := again.exists_body kind split known form made
    exact ih inner' extended

/-- Plain tokens have declared nothing, wherever their expansion stopped. -/
theorem quiet (free : ∀ c, Involved dictionary texts c → c.SigilFree dictionary)
    (starts : Starts source budget chain origin tokens before after)
    (extended : dictionary.Extends before) (plain : ∀ t ∈ tokens, t.IsPlain)
    (words : ∀ t ∈ tokens, ∀ c, t.Names c → Involved dictionary texts c) : after = before := by
  induction starts with
  | stop => rfl
  | declaration kind =>
    have first := (List.forall_mem_cons.mp plain).1
    rw [Token.IsPlain, kind] at first
    exact first.elim
  | item _ _ ih =>
    exact ih extended (List.forall_mem_cons.mp plain).2 (List.forall_mem_cons.mp words).2
  | @body _ _ _ _ _ _ _ _ _ name raw d _ kind split found _ made inner _ ih =>
    obtain ⟨first, others⟩ := List.forall_mem_cons.mp words
    have known : dictionary.find? name = some d := Dictionary.find?_extends extended found
    have caller := first ⟨name, argumentList (raw.getD [])⟩ ⟨kind, raw, split, rfl⟩
    obtain ⟨text, instantiated, lexed⟩ := bodyTokens_eq_ok_iff.mp made
    obtain ⟨rfl, -⟩ := inner.quiet free extended ((free _ caller).plain known instantiated lexed)
      fun t member c names =>
        .inBody caller known instantiated ⟨_, _, lexed, t, member, names⟩
    exact ih extended (List.forall_mem_cons.mp plain).2 others
  | @inBody _ _ _ _ _ _ _ name raw d _ kind split found _ made _ ih =>
    have first := (List.forall_mem_cons.mp words).1
    have known : dictionary.find? name = some d := Dictionary.find?_extends extended found
    have caller := first ⟨name, argumentList (raw.getD [])⟩ ⟨kind, raw, split, rfl⟩
    obtain ⟨text, instantiated, lexed⟩ := bodyTokens_eq_ok_iff.mp made
    exact ih extended ((free _ caller).plain known instantiated lexed)
      fun t member c names =>
        .inBody caller known instantiated ⟨_, _, lexed, t, member, names⟩

end Starts

end TapeLang.Expansion
