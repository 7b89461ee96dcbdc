import TapeLang.Proofs.Expansion.Sound
import TapeLang.Proofs.Program.Callees

/-! What a reading does, whether it ends or fails: it feeds items and declares definitions, and it
refuses what it cannot read. So the dictionary is only added to, and a reading that fails for a
loop that is not closed has come to the end of its tokens. -/
namespace TapeLang

/-- An error that does not tell of a loop. -/
def SourceError.OutsideLoops (e : SourceError) : Prop := e.fault.kind ≠ .unbalancedLoop

theorem foldlM_error {ε σ ι : Type} {f : σ → ι → Except ε σ} {E : ε → Prop}
    (steps : ∀ s a e, f s a = .error e → E e) {list : List ι} {s : σ} {e : ε}
    (failed : list.foldlM f s = .error e) : E e := by
  induction list generalizing s with
  | nil => cases failed
  | cons a rest ih =>
    rw [List.foldlM_cons] at failed
    cases step : f s a with
    | error e' =>
      rw [step] at failed
      cases failed
      exact steps s a e step
    | ok t =>
      rw [step] at failed
      exact ih failed

theorem Lexer.State.read_fails {file : Text} {s : State} {c : Char} {e : SourceError}
    (failed : s.read file c = .error e) :
    ∃ line column, e = ⟨.unterminatedArguments file line column, none⟩ := by
  unfold State.read at failed
  split at failed
  · rename_i error made
    cases failed
    unfold Mode.read at made
    repeat' split at made
    all_goals cases made
    exact ⟨_, _, rfl⟩
  · cases failed

/-- The lexer refuses argument lists that are not closed, and nothing else. -/
theorem tokenize_fails {file text : Text} {e : SourceError}
    (failed : tokenize file text = .error e) :
    ∃ line column, e = ⟨.unterminatedArguments file line column, none⟩ := by
  unfold tokenize at failed
  split at failed
  · rename_i error read
    cases failed
    exact foldlM_error (fun _ _ _ => Lexer.State.read_fails) read
  · unfold Lexer.State.finish Lexer.Mode.finish at failed
    split at failed
    · rename_i error made
      cases failed
      split at made <;> cases made
      exact ⟨_, _, rfl⟩
    · cases failed

/-- What can be wrong with the text of a declaration. -/
inductive IsDeclarationFault : SourceFault → Prop where
  | invalid (text : Text) : IsDeclarationFault (.invalidDeclaration text)
  | empty (name : Text) : IsDeclarationFault (.emptyParameter name)
  | repeated (name : Text) : IsDeclarationFault (.repeatedParameter name)

theorem readDeclaration_fails {kind : DefinitionKind} {value : Text} {place : Location}
    {e : SourceError} (failed : readDeclaration kind value place = .error e) :
    ∃ fault, IsDeclarationFault fault ∧ e = ⟨fault, some place⟩ := by
  unfold readDeclaration at failed
  dsimp only at failed
  repeat' split at failed
  all_goals cases failed
  · exact ⟨_, .invalid _, rfl⟩
  · exact ⟨_, .invalid _, rfl⟩
  · exact ⟨_, .empty _, rfl⟩
  · exact ⟨_, .repeated _, rfl⟩

theorem Dictionary.declare_fails {dictionary : Dictionary} {d : Definition} {e : SourceError}
    (failed : dictionary.declare d = .error e) : e = ⟨.alreadyDefined d.name, d.location⟩ := by
  unfold declare at failed
  split at failed <;> cases failed
  rfl

theorem Definition.instantiate_fails {d : Definition} {args : List Text} {e : SourceError}
    (failed : d.instantiate args = .error e) : e = ⟨d.arityFault args, none⟩ := by
  unfold instantiate at failed
  split at failed <;> cases failed
  rfl

/-- Taking an item can miss an opening bracket only, and never a closing one. -/
theorem LoopBinder.consume_ne_opening {b : LoopBinder} {item : Item} {e : SourceError}
    (failed : b.consume item = .error e) : e.fault ≠ .unbalancedLoop .opening := by
  unfold consume at failed
  cases made : item.instruction with
  | error e' =>
    rw [made] at failed
    cases failed
    cases item with
    | call => cases made
    | plain text location =>
      unfold Item.instruction Instruction.ofText at made
      dsimp only at made
      split at made <;> cases made
      exact SourceFault.noConfusion
  | ok i =>
    rw [made] at failed
    change b.emit i = .error e at failed
    unfold emit at failed
    split at failed <;> try cases failed
    split at failed <;> cases failed
    intro same
    cases same

namespace Expansion

variable {σ : Type} {source : Source} {consume : σ → Item → Except SourceError σ}

/-- A body is refused where it is called, for the number of its arguments, or by the lexer. -/
theorem bodyTokens_fails {file : Text} {d : Definition} {args : List Text} {place : Location}
    {e : SourceError} (failed : bodyTokens file d args place = .error e) :
    e = ⟨d.arityFault args, some place⟩ ∨
      ∃ body, d.instantiate args = .ok body ∧ tokenize file body = .error e := by
  unfold bodyTokens at failed
  split at failed
  · rename_i error made
    cases failed
    rw [Definition.instantiate_fails made]
    exact .inl rfl
  · rename_i body made
    exact .inr ⟨body, made, failed⟩

/-- A property of what becomes of a progress, which readings have if feeding has it. -/
structure Allows (consume : σ → Item → Except SourceError σ)
    (Q : Progress σ → EStateM.Result SourceError (Progress σ) Unit → Prop) : Prop where
  done : ∀ p, Q p (.ok () p)
  next : ∀ {p q r}, Q p (.ok () q) → Q q r → Q p r
  fed : ∀ item p, Q p ((feed consume item).run p)
  declared : ∀ {p d dictionary}, p.dictionary.declare d = .ok dictionary →
    Q p (.ok () { p with dictionary })
  refused : ∀ {p e}, e.OutsideLoops → Q p (.error e p)

namespace Allows

variable {Q : Progress σ → EStateM.Result SourceError (Progress σ) Unit → Prop}
variable {descend : Option (Descend σ)}

theorem bind (allows : Allows consume Q) {x y : Reading σ Unit} {p : Progress σ}
    (first : Q p (x.run p)) (second : ∀ q, Q q (y.run q)) :
    Q p ((x >>= fun _ => y).run p) := by
  cases ended : x.run p with
  | error e q =>
    rw [run_bind_of_error ended, ← ended]
    exact first
  | ok u q =>
    rw [run_bind_of_ok ended]
    rw [ended] at first
    exact allows.next first (second q)

theorem declare (allows : Allows consume Q) (kind : DefinitionKind) (value : Text)
    (location : Location) (p : Progress σ) : Q p ((declare kind value location).run p) := by
  rw [Expansion.declare, EStateM.run_bind, EStateM.run_get]
  dsimp only
  cases read : readDeclaration kind value location with
  | error e =>
    obtain ⟨fault, isFault, rfl⟩ := readDeclaration_fails read
    exact allows.refused (by cases isFault <;> simp [SourceError.OutsideLoops, SourceFault.kind])
  | ok d =>
    rw [show (Except.ok d >>= p.dictionary.declare) = p.dictionary.declare d from rfl]
    cases declared : p.dictionary.declare d with
    | error e =>
      obtain rfl := Dictionary.declare_fails declared
      exact allows.refused (by simp [SourceError.OutsideLoops, SourceFault.kind])
    | ok after => exact allows.declared declared

/-- Bodies have the property, if any can be expanded. -/
def Below (Q : Progress σ → EStateM.Result SourceError (Progress σ) Unit → Prop)
    (descend : Option (Descend σ)) : Prop :=
  ∀ expand, descend = some expand → ∀ chain location tokens p,
    Q p ((expand chain location tokens).run p)

theorem expandCall (allows : Allows consume Q) (below : Below Q descend) (chain : List Text)
    (d : Definition) (args : List Text) (location : Location) (p : Progress σ) :
    Q p ((expandCall source consume descend chain d args location).run p) := by
  unfold Expansion.expandCall
  split
  · split
    · exact allows.fed _ _
    · exact allows.refused nofun
  · split
    · exact allows.refused nofun
    · cases descend with
      | none => exact allows.refused nofun
      | some expand =>
        dsimp only
        cases made : bodyTokens source.file d args location with
        | error e =>
          rcases bodyTokens_fails made with rfl | ⟨body, -, refused⟩
          · exact allows.refused nofun
          · obtain ⟨line, column, rfl⟩ := tokenize_fails refused
            exact allows.refused nofun
        | ok tokens => exact below expand rfl _ _ _ _

theorem readWord (allows : Allows consume Q) (below : Below Q descend) (chain : List Text)
    (word : Text) (location : Location) (p : Progress σ) :
    Q p ((readWord source consume descend chain word location).run p) := by
  unfold Expansion.readWord
  cases splitCall? word with
  | none => exact allows.refused nofun
  | some parts =>
    obtain ⟨name, raw⟩ := parts
    dsimp only
    rw [EStateM.run_bind, EStateM.run_get]
    dsimp only
    cases p.dictionary.find? name with
    | none =>
      cases raw with
      | none => exact allows.fed _ _
      | some raw => exact allows.refused nofun
    | some d => exact allows.expandCall below _ _ _ _ _

theorem readToken (allows : Allows consume Q) {budget : Nat}
    (below : Below Q (descendWithin source consume budget)) (chain : List Text)
    (origin : Option Location) (token : Token) (p : Progress σ) :
    Q p ((readToken source consume budget chain origin token).run p) := by
  unfold Expansion.readToken
  cases token.kind with
  | endOfText => exact allows.done p
  | declaration kind => exact allows.declare _ _ _ _
  | word => exact allows.readWord below _ _ _ _
  | symbol => exact allows.fed _ _

theorem expandTokens (allows : Allows consume Q) {budget : Nat}
    (below : Below Q (descendWithin source consume budget)) (chain : List Text)
    (origin : Option Location) (tokens : List Token) (p : Progress σ) :
    Q p ((expandWithin source consume budget chain origin tokens).run p) := by
  induction tokens generalizing p with
  | nil =>
    rw [expandWithin_nil]
    exact allows.done p
  | cons token rest ih =>
    by_cases last : token.kind = .endOfText
    · rw [expandWithin_endOfText last]
      exact allows.done p
    · rw [expandWithin_cons last]
      exact allows.bind (allows.readToken below _ _ _ _) ih

/-- What feeding has, every expansion has. -/
theorem expandWithin (allows : Allows consume Q) (source : Source) (budget : Nat)
    (chain : List Text) (origin : Option Location) (tokens : List Token) (p : Progress σ) :
    Q p ((expandWithin source consume budget chain origin tokens).run p) := by
  induction budget generalizing chain origin tokens p with
  | zero =>
    apply allows.expandTokens
    intro expand none
    cases none
  | succ budget ih =>
    apply allows.expandTokens
    rintro expand ⟨⟩ chain location tokens p
    exact ih _ _ _ _

end Allows

/-- Expansions add to the dictionary. -/
theorem allows_growth (consume : σ → Item → Except SourceError σ) :
    Allows consume fun p r => (endState r).dictionary.Extends p.dictionary := by
  constructor
  · intro p
    exact .refl _
  · intro p q r first second
    exact second.trans first
  · intro item p
    rw [feed, EStateM.run_bind, EStateM.run_get]
    dsimp only
    cases consume p.consumed item <;> exact .refl _
  · intro p d dictionary declared
    exact Dictionary.extends_declare declared
  · intro p e _
    exact .refl _

/-- An opening bracket is not missed before the end of the tokens. -/
theorem allows_notOpening :
    Allows LoopBinder.consume fun _ r =>
      ∀ e q, r = .error e q → e.fault ≠ .unbalancedLoop .opening := by
  constructor
  · intro p e q failed
    cases failed
  · intro p q r _ second
    exact second
  · intro item p e q failed
    rw [feed, EStateM.run_bind, EStateM.run_get] at failed
    dsimp only at failed
    cases consumed : LoopBinder.consume p.consumed item with
    | ok next => rw [consumed] at failed; cases failed
    | error e' =>
      rw [consumed] at failed
      cases failed
      exact LoopBinder.consume_ne_opening consumed
  · intro p d dictionary _ e q failed
    cases failed
  · intro p e outside e' q failed opening
    cases failed
    rw [SourceError.OutsideLoops, opening] at outside
    exact outside rfl

end Expansion

namespace Dictionary

/-- What work on a dictionary does: it adds to it. -/
def Grows (before after : Dictionary) : Prop := after.Extends before

end Dictionary

/-- Reading a program adds to the dictionary, whether it fails or not. -/
theorem Source.grows_parse (source : Source) (tokens : List Token) (dictionary : Dictionary) :
    Leads Dictionary.Grows (source.parse tokens) dictionary := by
  have grown := (Expansion.allows_growth LoopBinder.consume).expandWithin source
    source.limit.toNat [] none tokens ⟨dictionary, {}⟩
  unfold Leads
  rw [run_parse, run_consumeAll, expand]
  cases expanded : (Expansion.expandWithin source LoopBinder.consume source.limit.toNat [] none
    tokens).run ⟨dictionary, {}⟩ with
  | error e p =>
    rw [expanded] at grown
    exact grown
  | ok ended p =>
    rw [expanded] at grown
    dsimp only
    cases p.consumed.finish <;> exact grown

/-- Reading fails for a loop that is not closed exactly where the tokens expand to items that leave
a bracket open. -/
theorem Source.parse_open_iff {source : Source} {tokens : List Token} {before : Dictionary} :
    (∃ e left, (source.parse tokens).run before = .error e left ∧
      e.fault = .unbalancedLoop .opening) ↔
    ∃ items binder after,
      Expansion.Expands source source.limit.toNat [] none tokens before items after ∧
        items.foldlM LoopBinder.consume {} = .ok binder ∧ binder.pending ≠ [] := by
  rw [run_parse, run_consumeAll, expand]
  constructor
  · rintro ⟨e, left, failed, opening⟩
    have before_end := Expansion.allows_notOpening.expandWithin source source.limit.toNat []
      none tokens ⟨before, {}⟩
    cases expanded : (Expansion.expandWithin source LoopBinder.consume source.limit.toNat [] none
      tokens).run ⟨before, {}⟩ with
    | error e' p =>
      rw [expanded] at failed
      cases failed
      exact absurd opening (before_end e p expanded)
    | ok ended p =>
      obtain ⟨items, expands, taken⟩ := Expansion.run_expandWithin_eq_ok_iff.mp expanded
      refine ⟨items, p.consumed, p.dictionary, expands, taken, ?_⟩
      intro closed
      have finished := LoopBinder.finish_eq_ok_iff.mpr ⟨closed, rfl⟩
      rw [expanded] at failed
      dsimp only at failed
      rw [finished] at failed
      cases failed
  · rintro ⟨items, binder, after, expands, taken, pending⟩
    have expanded := Expansion.run_expandWithin_of_expands expands taken
    rw [expanded]
    dsimp only
    unfold LoopBinder.finish
    cases opened : binder.pending with
    | nil => exact absurd opened pending
    | cons innermost others => exact ⟨_, _, rfl, rfl⟩

theorem Definition.grows_compile (d : Definition) (args : List Text) (limit : Int)
    (dictionary : Dictionary) : Leads Dictionary.Grows (d.compile args limit) dictionary := by
  unfold Definition.compile
  cases d.bodySource args limit with
  | error e => exact Dictionary.Extends.refl _
  | ok body => exact Source.grows_parse _ _ _

end TapeLang
