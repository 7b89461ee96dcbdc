import Mathlib.Algebra.Order.Group.Int
import TapeLang.Proofs.Course
import TapeLang.Proofs.Program

/-! Expansion one token at a time. The bodies that are being expanded stand on a stack, each with
the tokens that are left of it, and the limit is looked at where a further one is to be opened.
Nothing else bounds the work: a body may call what it likes, itself included, and declare what it
calls. It comes to an end all the same, with what the expansion of the tokens gives. -/
namespace TapeLang

namespace Expansion

/-- What a token asks for. -/
inductive Request where
  | leave
  | enter (dictionary : Dictionary)
  | feed (item : Item)
  | expand (name : Text) (body : List Token)

/-- What a call of a definition asks for, inside of so many expansions. -/
def requestCall (source : Source) (depth : Nat) (chain : List Text) (d : Definition)
    (args : List Text) (place : Location) : Except SourceError Request :=
  if d.kind = .functionForm then
    if args.length = d.params.length then .ok (.feed (.call d args place))
    else .error ⟨d.arityFault args, some place⟩
  else if d.kind = .procedureForm ∧ chain.contains d.name then
    .error ⟨.recursiveProcedure d.name, some place⟩
  else if source.limit ≤ depth then .error ⟨.expansionTooDeep d.name source.limit, some place⟩
  else (bodyTokens source.file d args place).map (.expand d.name)

def request (source : Source) (depth : Nat) (chain : List Text) (place : Location)
    (dictionary : Dictionary) (token : Token) : Except SourceError Request :=
  match token.kind with
  | .endOfText => .ok .leave
  | .declaration kind =>
    (readDeclaration kind token.value place >>= dictionary.declare).map .enter
  | .symbol => .ok (.feed (.plain token.value place))
  | .word =>
    match splitCall? token.value with
    | none => .error ⟨.invalidInstruction token.value, some place⟩
    | some (name, raw) =>
      match dictionary.find? name, raw with
      | none, none => .ok (.feed (.plain name place))
      | none, some _ => .error ⟨.undefinedCall name, some place⟩
      | some d, raw => requestCall source depth chain d (argumentList (raw.getD [])) place

/-- A text that is being expanded: the names behind it, the place of the outermost call and the
tokens that are left. -/
structure Level where
  chain : List Text
  origin : Option Location
  tokens : List Token

/-- The texts that are being expanded, the innermost first, and what was read so far. -/
structure Reader (σ : Type) where
  levels : List Level
  progress : Progress σ

namespace Reader

variable {σ α : Type}

def start (tokens : List Token) (dictionary : Dictionary) (s : σ) : Reader σ :=
  ⟨[⟨[], none, tokens⟩], ⟨dictionary, s⟩⟩

/-- How many expansions stand inside one another. -/
def nesting (r : Reader σ) : Nat := r.levels.length - 1

/-- The result of a reading that has come to the end of its tokens. -/
def conclude (finish : Progress σ → Except SourceError α) (p : Progress σ) :
    EStateM.Result SourceError Dictionary α :=
  match finish p with
  | .error e => .error e p.dictionary
  | .ok a => .ok a p.dictionary

/-- Reads one token of the innermost text, or goes back to the text around it. -/
def step (source : Source) (consume : σ → Item → Except SourceError σ)
    (finish : Progress σ → Except SourceError α) :
    Reader σ → Course (Reader σ) (EStateM.Result SourceError Dictionary α)
  | ⟨[], p⟩ => .ended (conclude finish p)
  | ⟨⟨_, _, []⟩ :: outer, p⟩ => .going ⟨outer, p⟩
  | ⟨⟨chain, origin, token :: rest⟩ :: outer, p⟩ =>
    match request source outer.length chain (source.place origin token) p.dictionary token with
    | .error e => .ended (.error e p.dictionary)
    | .ok .leave => .going ⟨outer, p⟩
    | .ok (.enter dictionary) => .going ⟨⟨chain, origin, rest⟩ :: outer, { p with dictionary }⟩
    | .ok (.feed item) =>
      match consume p.consumed item with
      | .error e => .ended (.error e p.dictionary)
      | .ok consumed => .going ⟨⟨chain, origin, rest⟩ :: outer, { p with consumed }⟩
    | .ok (.expand name body) =>
      .going ⟨⟨name :: chain, some (source.place origin token), body⟩ ::
        ⟨chain, origin, rest⟩ :: outer, p⟩

end Reader

variable {σ α : Type} {source : Source} {consume : σ → Item → Except SourceError σ}
variable {finish : Progress σ → Except SourceError α}
variable {budget depth : Nat} {chain : List Text} {origin : Option Location} {place : Location}
variable {dictionary : Dictionary} {token : Token} {p : Progress σ}

/-- What a token may be granted: only the end of the text is left, an item stands in the place that
is given for it, and a body is opened inside of fewer expansions than the limit. -/
def Request.IsGranted (source : Source) (depth : Nat) (place : Location)
    (dictionary : Dictionary) (token : Token) : Request → Prop
  | leave => token.kind = .endOfText
  | enter after => ∃ d, dictionary.declare d = .ok after
  | feed item => item.location = place
  | expand _ _ => depth < source.limit

theorem request_endOfText (last : token.kind = .endOfText) :
    request source depth chain place dictionary token = .ok .leave := by
  simp only [request, last]

theorem requestCall_granted {d : Definition} {args : List Text} {wish : Request}
    (asked : requestCall source depth chain d args place = .ok wish) :
    wish.IsGranted source depth place dictionary token := by
  unfold requestCall at asked
  split at asked
  · split at asked <;> cases asked
    rfl
  · split at asked
    · cases asked
    · split at asked
      · cases asked
      · rename_i within
        obtain ⟨body, -, rfl⟩ := map_eq_ok_iff.mp asked
        exact Int.not_le.mp within

theorem request_granted {wish : Request}
    (asked : request source depth chain place dictionary token = .ok wish) :
    wish.IsGranted source depth place dictionary token := by
  unfold request at asked
  cases kind : token.kind with
  | endOfText =>
    simp only [kind, Except.ok.injEq] at asked
    subst asked
    exact kind
  | declaration form =>
    simp only [kind] at asked
    obtain ⟨after, read, rfl⟩ := map_eq_ok_iff.mp asked
    obtain ⟨d, -, declared⟩ := bind_eq_ok_iff.mp read
    exact ⟨d, declared⟩
  | symbol =>
    simp only [kind, Except.ok.injEq] at asked
    subst asked
    rfl
  | word =>
    simp only [kind] at asked
    cases split : splitCall? token.value with
    | none => simp [split] at asked
    | some parts =>
      obtain ⟨name, raw⟩ := parts
      simp only [split] at asked
      cases found : dictionary.find? name with
      | none =>
        simp only [found] at asked
        cases raw <;> cases asked
        rfl
      | some d =>
        simp only [found] at asked
        exact requestCall_granted asked

theorem run_declare (kind : DefinitionKind) (value : Text) (location : Location)
    (p : Progress σ) :
    (declare kind value location).run p =
      match readDeclaration kind value location >>= p.dictionary.declare with
      | .error e => .error e p
      | .ok dictionary => .ok () { p with dictionary } := by
  rw [declare, EStateM.run_bind, EStateM.run_get]
  dsimp only
  cases readDeclaration kind value location >>= p.dictionary.declare <;> rfl

theorem run_feed (item : Item) (p : Progress σ) :
    (feed consume item).run p =
      match consume p.consumed item with
      | .error e => .error e p
      | .ok consumed => .ok () { p with consumed } := by
  rw [feed, EStateM.run_bind, EStateM.run_get]
  dsimp only
  cases consume p.consumed item <;> rfl

theorem run_expandCall (fits : source.limit ≤ depth ↔ budget = 0) (chain : List Text)
    (d : Definition) (args : List Text) (place : Location) (p : Progress σ) :
    (expandCall source consume (descendWithin source consume budget) chain d args place).run p =
      match requestCall source depth chain d args place with
      | .error e => .error e p
      | .ok .leave => .ok () p
      | .ok (.enter dictionary) => .ok () { p with dictionary }
      | .ok (.feed item) => (feed consume item).run p
      | .ok (.expand name body) =>
        (expandWithin source consume (budget - 1) (name :: chain) (some place) body).run p := by
  unfold expandCall requestCall
  by_cases form : d.kind = .functionForm
  · by_cases arity : args.length = d.params.length
    · simp only [form, arity, if_true]
    · simp only [form, arity, if_true, if_false]
      rfl
  by_cases recursive : d.kind = .procedureForm ∧ d.name ∈ chain
  · simp only [List.contains_iff_mem, if_neg form, if_pos recursive]
    rfl
  simp only [List.contains_iff_mem, if_neg form, if_neg recursive]
  cases budget with
  | zero =>
    rw [if_pos (fits.mpr rfl)]
    rfl
  | succ below =>
    rw [if_neg fun reached => absurd (fits.mp reached) (Nat.succ_ne_zero below)]
    dsimp only [descendWithin]
    cases bodyTokens source.file d args place <;> rfl

/-- A token is read as it asks for, where the limit is reached as the budget runs out. -/
theorem run_readToken (fits : source.limit ≤ depth ↔ budget = 0) (chain : List Text)
    (origin : Option Location) (token : Token) (p : Progress σ) :
    (readToken source consume budget chain origin token).run p =
      match request source depth chain (source.place origin token) p.dictionary token with
      | .error e => .error e p
      | .ok .leave => .ok () p
      | .ok (.enter dictionary) => .ok () { p with dictionary }
      | .ok (.feed item) => (feed consume item).run p
      | .ok (.expand name body) =>
        (expandWithin source consume (budget - 1) (name :: chain)
          (some (source.place origin token)) body).run p := by
  unfold readToken request
  cases token.kind with
  | endOfText => rfl
  | symbol => rfl
  | declaration kind =>
    dsimp only
    rw [run_declare]
    cases readDeclaration kind token.value (source.place origin token) >>= p.dictionary.declare <;>
      rfl
  | word =>
    dsimp only
    unfold readWord
    cases splitCall? token.value with
    | none => rfl
    | some parts =>
      obtain ⟨name, raw⟩ := parts
      dsimp only
      rw [EStateM.run_bind, EStateM.run_get]
      dsimp only
      cases p.dictionary.find? name with
      | none => cases raw <;> rfl
      | some d => exact run_expandCall fits chain d _ _ p

namespace Reader

/-- Where a reading stands when the innermost text was read. -/
def after (α : Type) (outer : List Level) :
    EStateM.Result SourceError (Progress σ) Unit →
    Course (Reader σ) (EStateM.Result SourceError Dictionary α)
  | .ok _ p => .going ⟨outer, p⟩
  | .error e p => .ended (.error e p.dictionary)

open StateTransition Course

/-- The innermost text is read in finitely many steps, as its expansion within the levels that are
left goes. -/
theorem reaches_after (consume : σ → Item → Except SourceError σ)
    (finish : Progress σ → Except SourceError α) (chain : List Text) (origin : Option Location)
    (tokens : List Token) (outer : List Level) (p : Progress σ)
    (levels : outer.length + budget = source.limit.toNat) :
    Reaches (next (step source consume finish)) (going ⟨⟨chain, origin, tokens⟩ :: outer, p⟩)
      (after α outer ((expandWithin source consume budget chain origin tokens).run p)) := by
  -- the budget drops in a body, the tokens become fewer beside it
  induction budget using Nat.strongRecOn generalizing chain origin tokens outer p with
  | _ budget ihBody =>
    have fits : source.limit ≤ outer.length ↔ budget = 0 := by omega
    induction tokens generalizing p with
    | nil =>
      rw [expandWithin_nil]
      exact reaches_step rfl
    | cons token rest ihRest =>
      by_cases last : token.kind = .endOfText
      · rw [expandWithin_endOfText last]
        apply reaches_step
        simp only [step, request, last]
        rfl
      rw [expandWithin_cons last, EStateM.run_bind, run_readToken fits chain origin token p]
      cases asked : request source outer.length chain (source.place origin token) p.dictionary
          token with
      | error e =>
        apply reaches_step
        simp only [step, asked]
        rfl
      | ok wish =>
        cases wish with
        | leave => exact absurd (request_granted asked) last
        | enter dictionary =>
          refine reaches_of_step ?_ (ihRest _)
          simp only [step, asked]
        | feed item =>
          dsimp only
          rw [run_feed]
          cases taken : consume p.consumed item with
          | error e =>
            apply reaches_step
            simp only [step, asked, taken]
            rfl
          | ok consumed =>
            refine reaches_of_step ?_ (ihRest _)
            simp only [step, asked, taken]
        | expand name body =>
          have deeper : (outer.length : Int) < source.limit := request_granted asked
          have inner := ihBody (budget - 1) (by omega) (name :: chain)
            (some (source.place origin token)) body (⟨chain, origin, rest⟩ :: outer) p
            (by rw [List.length_cons]; omega)
          dsimp only
          have opened : step source consume finish ⟨⟨chain, origin, token :: rest⟩ :: outer, p⟩ =
              going ⟨⟨name :: chain, some (source.place origin token), body⟩ ::
                ⟨chain, origin, rest⟩ :: outer, p⟩ := by
            simp only [step, asked]
          refine reaches_of_step opened (inner.trans ?_)
          cases (expandWithin source consume (budget - 1) (name :: chain)
              (some (source.place origin token)) body).run p with
          | error e q => exact .refl
          | ok u q => exact ihRest q

/-- The steps that go on. A text is left at its end, and what is read before it is in force behind;
an item is taken in the place that the token has for it, and a body is opened in that place, inside
of fewer expansions than the limit. -/
inductive Steps (source : Source) (consume : σ → Item → Except SourceError σ) :
    Reader σ → Reader σ → Prop where
  | leave {level : Level} {outer : List Level} {p : Progress σ} :
      (∀ token ∈ level.tokens.head?, token.kind = .endOfText) →
      Steps source consume ⟨level :: outer, p⟩ ⟨outer, p⟩
  | declare {chain : List Text} {origin : Option Location} {token : Token} {rest : List Token}
      {outer : List Level} {p : Progress σ} {d : Definition} {after : Dictionary} :
      token.kind ≠ .endOfText → p.dictionary.declare d = .ok after →
      Steps source consume ⟨⟨chain, origin, token :: rest⟩ :: outer, p⟩
        ⟨⟨chain, origin, rest⟩ :: outer, { p with dictionary := after }⟩
  | feed {chain : List Text} {origin : Option Location} {token : Token} {rest : List Token}
      {outer : List Level} {p : Progress σ} {item : Item} {consumed : σ} :
      token.kind ≠ .endOfText → item.location = source.place origin token →
      consume p.consumed item = .ok consumed →
      Steps source consume ⟨⟨chain, origin, token :: rest⟩ :: outer, p⟩
        ⟨⟨chain, origin, rest⟩ :: outer, { p with consumed }⟩
  | expand {chain : List Text} {origin : Option Location} {token : Token} {rest : List Token}
      {outer : List Level} {p : Progress σ} {name : Text} {body : List Token} :
      token.kind ≠ .endOfText → outer.length < source.limit →
      Steps source consume ⟨⟨chain, origin, token :: rest⟩ :: outer, p⟩
        ⟨⟨name :: chain, some (source.place origin token), body⟩ ::
          ⟨chain, origin, rest⟩ :: outer, p⟩

theorem steps_of_step {r r' : Reader σ} (stepped : step source consume finish r = going r') :
    Steps source consume r r' := by
  obtain ⟨levels, p⟩ := r
  match levels with
  | [] => cases stepped
  | ⟨chain, origin, []⟩ :: outer =>
    cases stepped
    exact .leave (by simp)
  | ⟨chain, origin, token :: rest⟩ :: outer =>
    simp only [step] at stepped
    by_cases last : token.kind = .endOfText
    · rw [request_endOfText last] at stepped
      cases stepped
      exact .leave (by simpa using last)
    cases asked : request source outer.length chain (source.place origin token) p.dictionary
        token with
    | error e => simp [asked] at stepped
    | ok wish =>
      have granted := request_granted asked
      simp only [asked] at stepped
      cases wish with
      | leave => exact absurd granted last
      | enter dictionary =>
        cases stepped
        obtain ⟨d, declared⟩ := granted
        exact .declare last declared
      | feed item =>
        dsimp only at stepped
        cases taken : consume p.consumed item with
        | error e => simp [taken] at stepped
        | ok consumed =>
          simp only [taken] at stepped
          cases stepped
          exact .feed last granted taken
      | expand name body =>
        cases stepped
        exact .expand last granted

/-- A step opens a body only where the limit allows one more. -/
theorem Steps.nesting {r r' : Reader σ} (steps : Steps source consume r r')
    (within : (r.nesting : Int) ≤ max 0 source.limit) :
    (r'.nesting : Int) ≤ max 0 source.limit := by
  cases steps with
  | leave =>
    simp only [Reader.nesting, List.length_cons] at within ⊢
    omega
  | declare | feed => exact within
  | expand _ deeper =>
    simp only [Reader.nesting, List.length_cons]
    omega

/-- The result of an expansion and of the last word on it. -/
def result (finish : Progress σ → Except SourceError α) :
    EStateM.Result SourceError (Progress σ) Unit → EStateM.Result SourceError Dictionary α
  | .error e p => .error e p.dictionary
  | .ok _ p => conclude finish p

/-- Reading from a state on comes to an end with a result, and on the way never more expansions
than the limit stand inside one another. -/
structure Ends (source : Source) (consume : σ → Item → Except SourceError σ)
    (finish : Progress σ → Except SourceError α) (r : Reader σ)
    (result : EStateM.Result SourceError Dictionary α) : Prop where
  ended : ended result ∈ eval (next (step source consume finish)) (going r)
  nesting : ∀ r', Reaches (next (step source consume finish)) (going r) (going r') →
    (r'.nesting : Int) ≤ max 0 source.limit

/-- Every reading ends as the expansion of its tokens does. -/
theorem ends (source : Source) (consume : σ → Item → Except SourceError σ)
    (finish : Progress σ → Except SourceError α) (tokens : List Token) (dictionary : Dictionary)
    (s : σ) :
    Ends source consume finish (start tokens dictionary s)
      (result finish ((source.expand consume tokens).run ⟨dictionary, s⟩)) := by
  constructor
  · have read := reaches_after consume finish [] none tokens [] ⟨dictionary, s⟩
      (Nat.zero_add source.limit.toNat)
    refine mem_eval_iff.mpr (read.trans ?_)
    unfold Source.expand
    cases (expandWithin source consume source.limit.toNat [] none tokens).run ⟨dictionary, s⟩ with
    | error e p => exact .refl
    | ok u p => exact reaches_step rfl
  · intro r' reaches
    refine reaches_keeps (fun _ _ within stepped => (steps_of_step stepped).nesting within) ?_
      reaches r' rfl
    rintro _ ⟨⟩
    exact Int.le_max_left 0 source.limit

end Reader

end Expansion

/-- Reading a whole source has the result of its expansion and of the last word on it. -/
theorem Source.result_consumeAll {σ α : Type} (source : Source) (tokens : List Token) (start : σ)
    (consume : σ → Item → Except SourceError σ) (finish : σ → Except SourceError α)
    (dictionary : Dictionary) :
    Expansion.Reader.result (fun p => finish p.consumed)
        ((source.expand consume tokens).run ⟨dictionary, start⟩) =
      (source.consumeAll tokens start consume finish).run dictionary := by
  rw [run_consumeAll]
  cases (source.expand consume tokens).run ⟨dictionary, start⟩ with
  | error e p => rfl
  | ok u p =>
    cases last : finish p.consumed <;>
      simp [Expansion.Reader.result, Expansion.Reader.conclude, last]

end TapeLang
