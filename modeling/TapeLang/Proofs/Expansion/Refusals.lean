import TapeLang.Proofs.Expansion.Reading
import TapeLang.Proofs.Expansion.Stepwise

/-! Where a reading is refused. Whatever is wrong, inside of however many expansions, is reported
at a token of the text itself. The exception is a body that does not lex, whose error is passed on
as the lexer makes it. -/
namespace TapeLang

/-- An error with a location of some kind, which tells of something other than an argument list that
is not closed. -/
def SourceError.IsLocated (isPlace : Location → Prop) (e : SourceError) : Prop :=
  ∃ place, e.location = some place ∧ isPlace place ∧
    ∀ file line column, e.fault ≠ .unterminatedArguments file line column

/-- How a reading is refused: at a place of some kind, or by the lexer, for the body that a macro or
a procedure makes of some arguments. -/
inductive Refusal (file : Text) (isPlace : Location → Prop) (dictionary : Dictionary)
    (e : SourceError) : Prop where
  | located : e.IsLocated isPlace → Refusal file isPlace dictionary e
  | inBody {name body : Text} {d : Definition} {args : List Text} :
      dictionary.find? name = some d → d.kind ≠ .functionForm →
      d.instantiate args = .ok body → tokenize file body = .error e →
      Refusal file isPlace dictionary e

theorem Refusal.at_place {file : Text} {isPlace : Location → Prop} {dictionary : Dictionary}
    {e : SourceError} {place : Location} (here : isPlace place)
    (refusal : Refusal file (· = place) dictionary e) : Refusal file isPlace dictionary e := by
  cases refusal with
  | located located =>
    obtain ⟨_, placed, rfl, outside⟩ := located
    exact .located ⟨_, placed, here, outside⟩
  | inBody found form made refused => exact .inBody found form made refused

theorem location_of_readDeclaration {kind : DefinitionKind} {value : Text} {place : Location}
    {d : Definition} (read : readDeclaration kind value place = .ok d) :
    d.location = some place := by
  unfold readDeclaration at read
  dsimp only at read
  repeat' split at read
  all_goals cases read
  rfl

namespace Expansion

variable {σ α : Type} {source : Source} {depth : Nat} {chain : List Text} {place : Location}
variable {dictionary : Dictionary} {token : Token} {e : SourceError}

theorem requestCall_fails {name : Text} {d : Definition} {args : List Text}
    (found : dictionary.find? name = some d)
    (failed : requestCall source depth chain d args place = .error e) :
    Refusal source.file (· = place) dictionary e := by
  unfold requestCall at failed
  repeat' split at failed
  · cases failed
  · cases failed
    exact .located ⟨_, rfl, rfl, nofun⟩
  · cases failed
    exact .located ⟨_, rfl, rfl, nofun⟩
  · cases failed
    exact .located ⟨_, rfl, rfl, nofun⟩
  · rename_i form _ _
    rcases bodyTokens_fails (map_eq_error_iff.mp failed) with rfl | ⟨body, filled, refused⟩
    · exact .located ⟨_, rfl, rfl, nofun⟩
    · exact .inBody found form filled refused

/-- A token is refused in its place, or because its body does not lex. -/
theorem request_fails (failed : request source depth chain place dictionary token = .error e) :
    Refusal source.file (· = place) dictionary e := by
  unfold request at failed
  cases kind : token.kind with
  | endOfText => simp [kind] at failed
  | symbol => simp [kind] at failed
  | declaration form =>
    simp only [kind] at failed
    rcases bind_eq_error_iff.mp (map_eq_error_iff.mp failed) with refused | ⟨d, read, refused⟩
    · obtain ⟨fault, isFault, rfl⟩ := readDeclaration_fails refused
      cases isFault <;> exact .located ⟨_, rfl, rfl, nofun⟩
    · obtain rfl := Dictionary.declare_fails refused
      exact .located ⟨_, location_of_readDeclaration read, rfl, nofun⟩
  | word =>
    simp only [kind] at failed
    cases split : splitCall? token.value with
    | none =>
      simp only [split, Except.error.injEq] at failed
      subst failed
      exact .located ⟨_, rfl, rfl, nofun⟩
    | some parts =>
      obtain ⟨name, raw⟩ := parts
      simp only [split] at failed
      cases found : dictionary.find? name with
      | some d =>
        simp only [found] at failed
        exact requestCall_fails found failed
      | none =>
        simp only [found] at failed
        cases raw with
        | none => cases failed
        | some raw =>
          cases failed
          exact .located ⟨_, rfl, rfl, nofun⟩

namespace Reader

/-- A consumer that is fed in places of a kind and refuses what it is fed in such places. -/
structure Keeps (isPlace : Location → Prop) (consume : σ → Item → Except SourceError σ)
    (finish : σ → Except SourceError α) (kept : σ → Prop) : Prop where
  takes : ∀ s item t, kept s → isPlace item.location → consume s item = .ok t → kept t
  refuses : ∀ s item e, kept s → isPlace item.location → consume s item = .error e →
    e.IsLocated isPlace
  concludes : ∀ s e, kept s → finish s = .error e → e.IsLocated isPlace

/-- All that is left to be read is read in places of a kind. -/
structure Within (source : Source) (isPlace : Location → Prop) (kept : σ → Prop)
    (r : Reader σ) : Prop where
  levels : ∀ level ∈ r.levels, ∀ t ∈ level.tokens, t.kind ≠ .endOfText →
    isPlace (source.place level.origin t)
  consumed : kept r.progress.consumed

variable {isPlace : Location → Prop} {kept : σ → Prop}
variable {consume : σ → Item → Except SourceError σ} {finish : σ → Except SourceError α}

theorem Within.steps {r r' : Reader σ} (keeps : Keeps isPlace consume finish kept)
    (within : Within source isPlace kept r) (steps : Steps source consume r r') :
    Within source isPlace kept r' := by
  obtain ⟨places, inside⟩ := within
  cases steps with
  | leave => exact ⟨(List.forall_mem_cons.mp places).2, inside⟩
  | declare =>
    obtain ⟨here, others⟩ := List.forall_mem_cons.mp places
    exact ⟨List.forall_mem_cons.mpr ⟨(List.forall_mem_cons.mp here).2, others⟩, inside⟩
  | feed unended placed taken =>
    obtain ⟨here, others⟩ := List.forall_mem_cons.mp places
    obtain ⟨token, behind⟩ := List.forall_mem_cons.mp here
    exact ⟨List.forall_mem_cons.mpr ⟨behind, others⟩,
      keeps.takes _ _ _ inside (placed ▸ token unended) taken⟩
  | expand unended =>
    obtain ⟨here, others⟩ := List.forall_mem_cons.mp places
    obtain ⟨token, behind⟩ := List.forall_mem_cons.mp here
    exact ⟨List.forall_mem_cons.mpr ⟨fun _ _ _ => token unended,
      List.forall_mem_cons.mpr ⟨behind, others⟩⟩, inside⟩

/-- The last step of a reading that fails finds what is wrong in a place of the kind, or a body that
does not lex. -/
theorem Within.refusal {r : Reader σ} {after : Dictionary}
    (keeps : Keeps isPlace consume finish kept) (within : Within source isPlace kept r)
    (stepped : Reader.step source consume (fun p => finish p.consumed) r =
      .ended (.error e after)) :
    Refusal source.file isPlace after e := by
  obtain ⟨levels, p⟩ := r
  obtain ⟨places, inside⟩ := within
  match levels with
  | [] =>
    simp only [Reader.step, conclude] at stepped
    cases last : finish p.consumed with
    | ok a => simp [last] at stepped
    | error e' =>
      simp only [last, Course.ended.injEq, EStateM.Result.error.injEq] at stepped
      obtain ⟨rfl, rfl⟩ := stepped
      exact .located (keeps.concludes _ _ inside last)
  | ⟨chain, origin, []⟩ :: outer => cases stepped
  | ⟨chain, origin, token :: rest⟩ :: outer =>
    simp only [Reader.step] at stepped
    by_cases last : token.kind = .endOfText
    · rw [request_endOfText last] at stepped
      cases stepped
    have here : isPlace (source.place origin token) :=
      (List.forall_mem_cons.mp places).1 token List.mem_cons_self last
    cases asked : request source outer.length chain (source.place origin token) p.dictionary
        token with
    | error e' =>
      simp only [asked, Course.ended.injEq, EStateM.Result.error.injEq] at stepped
      obtain ⟨rfl, rfl⟩ := stepped
      exact (request_fails asked).at_place here
    | ok wish =>
      simp only [asked] at stepped
      cases wish with
      | leave | enter | expand => cases stepped
      | feed item =>
        have stands : item.location = source.place origin token := request_granted asked
        dsimp only at stepped
        cases taken : consume p.consumed item with
        | ok consumed => simp [taken] at stepped
        | error e' =>
          simp only [taken, Course.ended.injEq, EStateM.Result.error.injEq] at stepped
          obtain ⟨rfl, rfl⟩ := stepped
          exact .located (keeps.refuses _ _ _ inside (stands ▸ here) taken)

end Reader
end Expansion

/-- A place of a token before the end of the text. -/
def Source.IsTokenPlace (source : Source) (tokens : List Token) (place : Location) : Prop :=
  ∃ t ∈ tokens, t.kind ≠ .endOfText ∧ source.locate t = place

/-- A reading that fails is refused at a token before the end of the text, or because a body does
not lex. -/
theorem Source.refusal_of_consumeAll {σ α : Type} {source : Source} {tokens : List Token}
    {start : σ} {consume : σ → Item → Except SourceError σ} {finish : σ → Except SourceError α}
    {kept : σ → Prop} {before after : Dictionary} {e : SourceError}
    (keeps : Expansion.Reader.Keeps (source.IsTokenPlace tokens) consume finish kept)
    (begins : kept start)
    (failed : (source.consumeAll tokens start consume finish).run before = .error e after) :
    Refusal source.file (source.IsTokenPlace tokens) after e := by
  have ends := (Expansion.Reader.ends source consume (fun p => finish p.consumed) tokens before
    start).ended
  rw [result_consumeAll, failed] at ends
  obtain ⟨last, reaches, stepped⟩ := Course.exists_last_step (Course.mem_eval_iff.mp ends)
  have within : Expansion.Reader.Within source (source.IsTokenPlace tokens) kept
      (.start tokens before start) :=
    ⟨List.forall_mem_singleton.mpr fun t member unended => ⟨t, member, unended, rfl⟩, begins⟩
  refine Expansion.Reader.Within.refusal keeps ?_ stepped
  refine Course.reaches_keeps (fun _ _ inside stepped => inside.steps keeps
    (Expansion.Reader.steps_of_step stepped)) ?_ reaches last rfl
  rintro _ ⟨⟩
  exact within

end TapeLang
