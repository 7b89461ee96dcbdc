import Mathlib.Logic.Relation
import TapeLang.Proofs.Inlining.Definition
import TapeLang.Proofs.Program.Callees
import TapeLang.Proofs.Program.Places

/-! Expansion with macros in place of functions. Where such a text expands, the text with the
functions expands to operations with calls, in fewer levels; and its operations are those with
the body of every call inlined, provided that the calls compile. -/
namespace TapeLang

theorem exists_append_of_forall₂ {α β : Type} {R : α → β → Prop} {first second : List α}
    {all : List β} (related : List.Forall₂ R (first ++ second) all) :
    ∃ front back, all = front ++ back ∧ List.Forall₂ R first front ∧
      List.Forall₂ R second back :=
  ⟨all.take first.length, all.drop first.length, (List.take_append_drop _ _).symm,
    (List.forall₂_take_append _ _ _ related.flip).flip,
    (List.forall₂_drop_append _ _ _ related.flip).flip⟩

theorem LoopBinder.rightUnique_spells : Relator.RightUnique Spells := by
  rintro item op op' ⟨location, made⟩ ⟨location', made'⟩
  cases made.symm.trans made'
  rfl

/-- The call that an item makes, if it is one. -/
def Item.call? : Item → Option Call
  | plain .. => none
  | call d args _ => some (d.callWith args)

theorem Item.call?_eq {item : Item} {op : Operation} (spelled : LoopBinder.Spells item op) :
    item.call? = op.call? := by
  obtain ⟨location, made⟩ := spelled
  cases item with
  | plain text place =>
    simp only [instruction, Instruction.ofText] at made
    cases found : Command.ofText? text with
    | none => rw [found] at made; cases made
    | some command =>
      rw [found] at made
      cases made
      rfl
  | call d args place =>
    cases made
    rfl

theorem Item.filterMap_call? {items : List Item} {ops : List Operation}
    (spelled : List.Forall₂ LoopBinder.Spells items ops) :
    items.filterMap call? = ops.filterMap Operation.call? := by
  induction spelled with
  | nil => rfl
  | cons first _ ih => rw [List.filterMap_cons, List.filterMap_cons, call?_eq first, ih]

/-- The operations of a program. -/
abbrev Program.operations (p : Program) : List Operation := p.instructions.toList.map (·.op)

namespace Dictionary

/-- The calls that a call leads to, itself among them. -/
def Reaches (dictionary : Dictionary) (limit : Int) : Call → Call → Prop :=
  Relation.ReflTransGen fun c d => d ∈ dictionary.callees limit c

/-- Whether every call that a call leads to compiles. -/
def Compiles (dictionary : Dictionary) (limit : Int) (c : Call) : Prop :=
  ∀ d, dictionary.Reaches limit c d → ∃ p, dictionary.body limit d = .ok p

variable {dictionary : Dictionary} {limit : Int} {c d : Call} {p : Program}

theorem Compiles.callee (compiles : dictionary.Compiles limit c)
    (called : d ∈ dictionary.callees limit c) : dictionary.Compiles limit d :=
  fun e reached => compiles e (.head called reached)

/-- Calls compile, and those they lead to, if their bodies call within them. -/
theorem compiles_of_closed {calls : List Call}
    (closed : ∀ c ∈ calls, ∃ p, dictionary.body limit c = .ok p ∧ p.callees ⊆ calls)
    (member : c ∈ calls) : dictionary.Compiles limit c := by
  intro d reached
  have inside : d ∈ calls := by
    induction reached with
    | refl => exact member
    | tail _ called ih =>
      obtain ⟨p, body, calls⟩ := closed _ ih
      rw [callees, body] at called
      exact calls called
  obtain ⟨p, body, -⟩ := closed d inside
  exact ⟨p, body⟩

theorem exists_compile_of_body (body : dictionary.body limit c = .ok p) :
    ∃ left, dictionary.compile limit c = .ok p left := by
  unfold Dictionary.body at body
  cases compiled : dictionary.compile limit c with
  | error e left => rw [compiled] at body; cases body
  | ok q left =>
    rw [compiled] at body
    cases body
    exact ⟨left, rfl⟩

theorem body_of_compile {left : Dictionary} (compiled : dictionary.compile limit c = .ok p left) :
    dictionary.body limit c = .ok p := by
  rw [Dictionary.body, compiled]
  rfl

end Dictionary

/-- `Inlined dictionary limit ops flat`: the operations with the body of every call in its
place, which is inlined itself. -/
inductive Inlined (dictionary : Dictionary) (limit : Int) :
    List Operation → List Operation → Prop where
  | nil : Inlined dictionary limit [] []
  | command {c rest flat} :
      Inlined dictionary limit rest flat →
      Inlined dictionary limit (.command c :: rest) (.command c :: flat)
  | call {target args rest p inner flat} :
      dictionary.compile limit ⟨target, args⟩ = .ok p dictionary →
      Inlined dictionary limit p.operations inner →
      Inlined dictionary limit rest flat →
      Inlined dictionary limit (.call target args :: rest) (inner ++ flat)

namespace Inlined

variable {dictionary : Dictionary} {limit : Int} {ops ops' flat flat' : List Operation}

theorem append (first : Inlined dictionary limit ops flat)
    (second : Inlined dictionary limit ops' flat') :
    Inlined dictionary limit (ops ++ ops') (flat ++ flat') := by
  induction first with
  | nil => exact second
  | command _ ih => exact .command ih
  | call compiled inner _ _ ih =>
    rw [List.cons_append, List.append_assoc]
    exact .call compiled inner ih

end Inlined

/-- The source of a body and its tokens are those that an expansion in place would have. -/
theorem Definition.bodySource_of_bodyTokens {file : Text} {d : Definition} {args : List Text}
    {place : Location} {tokens : List Token}
    (made : Expansion.bodyTokens file d args place = .ok tokens) (limit : Int) :
    ∃ source, d.bodySource args limit = .ok (source, tokens) ∧ source.limit = limit := by
  obtain ⟨text, instantiated, lexed⟩ := Expansion.bodyTokens_eq_ok_iff.mp made
  have lexed' := Lexer.tokenize_elsewhere lexed ('<' :: d.name ++ ['>'])
  refine ⟨Source.ofLines ('<' :: d.name ++ ['>']) [text] limit, ?_, rfl⟩
  rw [bodySource, instantiated, show (Except.ok text >>= fun text => do
    let file := '<' :: d.name ++ ['>']
    return (Source.ofLines file [text] limit, ← tokenize file text)) = do
      return (Source.ofLines ('<' :: d.name ++ ['>']) [text] limit,
        ← tokenize ('<' :: d.name ++ ['>']) text) from rfl, lexed']
  rfl

namespace Expansion

open Definition (Defers)

/-- What is known of tokens that expand to operations without calls: with functions they
expand to operations with calls in any source, within no more levels and names, and inlining
these gives the others. -/
structure Calling (dictionary : Dictionary) (limit : Int) (budget : Nat) (chain : List Text)
    (tokens : List Token) (flat ops : List Operation) : Prop where
  expands : ∀ (source : Source) (budget' : Nat) (chain' : List Text) (origin : Option Location),
    budget ≤ budget' → chain' ⊆ chain → ∃ items,
      Expands source budget' chain' origin tokens dictionary items dictionary ∧
        List.Forall₂ LoopBinder.Spells items ops
  inlined : (∀ c ∈ ops.filterMap Operation.call?, dictionary.Compiles limit c) →
    Inlined dictionary limit ops flat

variable {source : Source} {budget : Nat} {chain : List Text} {origin : Option Location}
variable {tokens : List Token} {dictionary dictionary' before after : Dictionary}
variable {items : List Item} {flat : List Operation} {limit : Int}

/-- A call that compiles has the program that its tokens expand to, and declares nothing. -/
theorem Calling.compile {d : Definition} {args : List Text} {place : Location}
    {inner ops : List Operation} (found : dictionary.find? d.name = some d)
    (made : bodyTokens source.file d args place = .ok tokens)
    (calling : Calling dictionary limit budget chain tokens inner ops)
    (room : budget ≤ limit.toNat) (compiles : dictionary.Compiles limit (d.callWith args)) :
    ∃ p, dictionary.compile limit (d.callWith args) = .ok p dictionary ∧ p.operations = ops := by
  obtain ⟨p, body⟩ := compiles _ .refl
  obtain ⟨left, compiled⟩ := Dictionary.exists_compile_of_body body
  obtain ⟨bodySource, read, bound⟩ := Definition.bodySource_of_bodyTokens made limit
  have parsed : (bodySource.parse tokens).run dictionary = .ok p left := by
    rw [Dictionary.compile_callWith found, Definition.compile, read] at compiled
    exact compiled
  obtain ⟨items, expands, spelled⟩ := Source.exists_spelled parsed
  rw [bound] at expands
  obtain ⟨items', expands', spelled'⟩ :=
    calling.expands bodySource limit.toNat [] none room (List.nil_subset _)
  obtain ⟨rfl, rfl⟩ := expands.unique expands'
  exact ⟨p, compiled, LoopBinder.rightUnique_spells.forall₂ spelled spelled'⟩

/-- An item that stands for a command, in front of the others. -/
theorem Calling.plain {token : Token} {rest : List Token} {text : Text} {place : Location}
    {op : Operation} {ops : List Operation} (spelled : LoopBinder.Spells (.plain text place) op)
    (one : ∀ (source : Source) (budget' : Nat) (chain' : List Text) (origin : Option Location)
      (items : List Item), Expands source budget' chain' origin rest dictionary items dictionary →
      Expands source budget' chain' origin (token :: rest) dictionary
        (.plain text (source.place origin token) :: items) dictionary)
    (calling : Calling dictionary limit budget chain rest flat ops) :
    Calling dictionary limit budget chain (token :: rest) (op :: flat) (op :: ops) := by
  have noCall : op.call? = none := (Item.call?_eq spelled).symm
  constructor
  · intro source budget' chain' origin room fewer
    obtain ⟨items, expands, spells⟩ := calling.expands source budget' chain' origin room fewer
    have first := Item.plain_spellsAs text place (source.place origin token) op spelled
    exact ⟨_, one _ _ _ _ _ expands, .cons first spells⟩
  · intro compiles
    rw [List.filterMap_cons_none noCall] at compiles
    cases op with
    | command c => exact .command (calling.inlined compiles)
    | call => cases noCall

/-- A call of a function, whose tokens were expanded in its place. -/
theorem Calling.function {token : Token} {rest : List Token} {name : Text} {raw : Option Text}
    {d : Definition} {names : List Text} {place : Location} {inner innerOps ops : List Operation}
    (isWord : token.kind = .word) (split : splitCall? token.value = some (name, raw))
    (found : dictionary.find? name = some d) (form : d.kind = .functionForm)
    (arity : (argumentList (raw.getD [])).length = d.params.length)
    (made : bodyTokens source.file d (argumentList (raw.getD [])) place = .ok tokens)
    (body : Calling dictionary limit budget names tokens inner innerOps)
    (below : budget ≤ limit.toNat)
    (calling : Calling dictionary limit (budget + 1) chain rest flat ops) :
    Calling dictionary limit (budget + 1) chain (token :: rest) (inner ++ flat)
      (.call d.name (argumentList (raw.getD [])) :: ops) := by
  constructor
  · intro source budget' chain' origin room fewer
    obtain ⟨items, expands, spells⟩ := calling.expands source budget' chain' origin room fewer
    exact ⟨_, .call isWord split found form arity expands, .cons ⟨_, rfl⟩ spells⟩
  · intro compiles
    obtain ⟨first, others⟩ := List.forall_mem_cons.mp compiles
    have named := Dictionary.name_of_find? found
    obtain ⟨p, compiled, operations⟩ := body.compile (named ▸ found) made below first
    have inside : ∀ c ∈ innerOps.filterMap Operation.call?, dictionary.Compiles limit c := by
      intro c member
      apply first.callee
      rw [Dictionary.callees, show dictionary.body limit ⟨d.name, argumentList (raw.getD [])⟩ = .ok p
        from Dictionary.body_of_compile compiled]
      rwa [← operations] at member
    exact .call compiled (operations ▸ body.inlined inside) (calling.inlined others)

/-- A call of a macro or procedure, which is expanded in its place by either of them. -/
theorem Calling.expanded {token : Token} {rest : List Token} {name : Text} {raw : Option Text}
    {d : Definition} {place : Location} {inner innerOps ops : List Operation}
    (isWord : token.kind = .word) (split : splitCall? token.value = some (name, raw))
    (found : dictionary.find? name = some d) (form : d.kind ≠ .functionForm)
    (recursive : ¬ (d.kind = .procedureForm ∧ d.name ∈ chain))
    (made : bodyTokens source.file d (argumentList (raw.getD [])) place = .ok tokens)
    (body : Calling dictionary limit budget (d.name :: chain) tokens inner innerOps)
    (calling : Calling dictionary limit (budget + 1) chain rest flat ops) :
    Calling dictionary limit (budget + 1) chain (token :: rest) (inner ++ flat)
      (innerOps ++ ops) := by
  constructor
  · intro source' budget' chain' origin room fewer
    obtain ⟨level, rfl⟩ : ∃ level, budget' = level + 1 := ⟨budget' - 1, by omega⟩
    obtain ⟨items, expands, spells⟩ := calling.expands source' _ chain' origin room fewer
    obtain ⟨innerItems, expandsBody, spellsBody⟩ :=
      body.expands source' level (d.name :: chain') (some (source'.place origin token)) (by omega)
        (List.cons_subset_cons _ fewer)
    have again := bodyTokens_elsewhere made (Definition.isLikeness_alike.refl d) source'.file
      (source'.place origin token)
    have fresh : ¬ (d.kind = .procedureForm ∧ d.name ∈ chain') :=
      fun inside => recursive ⟨inside.1, fewer inside.2⟩
    exact ⟨_, .body isWord split found form fresh again expandsBody expands,
      List.rel_append spellsBody spells⟩
  · intro compiles
    rw [List.filterMap_append] at compiles
    obtain ⟨first, others⟩ := List.forall_mem_append.mp compiles
    exact (body.inlined first).append (calling.inlined others)

/-- Tokens that expand where functions are macros expand where they are functions, too. -/
theorem Expands.calling (alike : dictionary.Like Defers dictionary')
    (expands : Expands source budget chain origin tokens before items after)
    (start : before = dictionary') (plain : ∀ t ∈ tokens, t.IsPlain)
    (room : budget ≤ limit.toNat) (spelled : List.Forall₂ LoopBinder.Spells items flat) :
    after = dictionary' ∧ ∃ ops, Calling dictionary limit budget chain tokens flat ops := by
  -- plain tokens declare nothing, so one dictionary serves the whole expansion
  induction expands generalizing flat with
  | nil =>
    cases spelled
    refine ⟨start, [], ?_, fun _ => .nil⟩
    exact fun _ _ _ _ _ _ => ⟨[], .nil, .nil⟩
  | endOfText last =>
    cases spelled
    refine ⟨start, [], ?_, fun _ => .nil⟩
    exact fun _ _ _ _ _ _ => ⟨[], .endOfText last, .nil⟩
  | @declaration _ _ _ _ _ _ _ token _ _ _ isDeclaration =>
    have none := plain token List.mem_cons_self
    rw [Token.IsPlain, isDeclaration] at none
    exact none.elim
  | symbol isSymbol _ ih =>
    obtain ⟨firstPlain, restPlain⟩ := List.forall_mem_cons.mp plain
    cases spelled with
    | cons first rest =>
      obtain ⟨left, ops, calling⟩ := ih start restPlain room rest
      exact ⟨left, _, calling.plain first fun _ _ _ _ _ expands => .symbol isSymbol expands⟩
  | @plainWord _ _ _ _ _ _ _ _ name isWord split absent _ ih =>
    obtain ⟨firstPlain, restPlain⟩ := List.forall_mem_cons.mp plain
    subst start
    have absent' : dictionary.find? name = none := by
      rcases alike.find? Defers.name name with ⟨left, -⟩ | ⟨d, e, -, found, -⟩
      · exact left
      · cases absent.symm.trans found
    cases spelled with
    | cons first rest =>
      obtain ⟨left, ops, calling⟩ := ih rfl restPlain room rest
      exact ⟨left, _, calling.plain first fun _ _ _ _ _ expands =>
        .plainWord isWord split absent' expands⟩
  | @call _ _ _ _ _ _ _ _ name _ _ _ _ found form =>
    subst start
    rcases alike.find? Defers.name name with ⟨-, none⟩ | ⟨d, e, -, found', defers⟩
    · cases found.symm.trans none
    · cases found.symm.trans found'
      exact absurd (defers.kind.symm.trans form) (DefinitionKind.asMacro_ne _)
  | @body budget chain origin _ _ _ _ _ token rest name raw e tokens isWord split found form recursive
      made _ _ ihBody ihRest =>
    obtain ⟨firstPlain, restPlain⟩ := List.forall_mem_cons.mp plain
    subst start
    rcases alike.find? Defers.name name with ⟨-, none⟩ | ⟨d, e', found', foundMacro, defers⟩
    · cases found.symm.trans none
    · cases found.symm.trans foundMacro
      obtain ⟨innerFlat, restFlat, rfl, spelledBody, spelledRest⟩ :=
        exists_append_of_forall₂ spelled
      have made' : bodyTokens source.file d (argumentList (raw.getD []))
          (source.place origin token) = .ok tokens := by
        unfold bodyTokens at made ⊢
        rw [← defers.instantiate]
        exact made
      obtain ⟨text, instantiated, lexed⟩ := bodyTokens_eq_ok_iff.mp made'
      have tokensPlain : ∀ t ∈ tokens, t.IsPlain := by
        rw [Token.IsPlain, isWord] at firstPlain
        have free := Definition.sigilFree_of_instantiate defers.free
          (sigilFree_of_argumentList firstPlain split) instantiated
        exact tokenize_plain free lexed
      have below : budget ≤ limit.toNat := by omega
      obtain ⟨between, innerOps, body⟩ := ihBody rfl tokensPlain below spelledBody
      obtain ⟨left, ops, calling⟩ := ihRest between restPlain room spelledRest
      refine ⟨left, ?_⟩
      by_cases function : d.kind = .functionForm
      -- the other text expanded the body of a function, which this one calls
      · have arity := (Definition.instantiate_eq_ok_iff.mp instantiated).1
        exact ⟨_, .function isWord split found' function arity made' body below calling⟩
      · have kind := defers.kind.trans (DefinitionKind.asMacro_of_ne function)
        rw [defers.name] at body recursive
        rw [kind] at recursive
        exact ⟨_, .expanded isWord split found' function recursive made' body calling⟩

end Expansion

/-- The tokens of a text that declares first and holds no sigil in any body or call argument. -/
structure DefersCalls (tokens : List Token) : Prop where
  declaredFirst : tokens.Pairwise fun t u => u.isDeclaration → t.isDeclaration
  bodies : ∀ t ∈ tokens, t.isDeclaration → ∀ body ∈ (Text.cut '=' t.value).2, Text.SigilFree body
  words : ∀ t ∈ tokens, t.kind = .word → Text.SigilFree t.value

namespace DefersCalls

instance (tokens : List Token) : Decidable (DefersCalls tokens) :=
  decidable_of_iff
    ((tokens.Pairwise fun t u => u.isDeclaration → t.isDeclaration) ∧
      (∀ t ∈ tokens, t.isDeclaration → ∀ body ∈ (Text.cut '=' t.value).2, Text.SigilFree body) ∧
      ∀ t ∈ tokens, t.kind = .word → Text.SigilFree t.value)
    ⟨fun ⟨first, bodies, words⟩ => ⟨first, bodies, words⟩,
      fun ⟨first, bodies, words⟩ => ⟨first, bodies, words⟩⟩

variable {token : Token} {rest : List Token}

theorem tail (defers : DefersCalls (token :: rest)) : DefersCalls rest :=
  ⟨defers.declaredFirst.of_cons, (List.forall_mem_cons.mp defers.bodies).2,
    (List.forall_mem_cons.mp defers.words).2⟩

/-- Behind the declarations every token is plain. -/
theorem plain (defers : DefersCalls (token :: rest)) (other : ¬ token.isDeclaration) :
    ∀ t ∈ token :: rest, t.IsPlain := by
  intro t member
  have noDeclaration : ¬ t.isDeclaration := by
    rcases List.mem_cons.mp member with rfl | later
    · exact other
    · exact fun declares => other (List.rel_of_pairwise_cons defers.declaredFirst later declares)
  have word := defers.words t member
  unfold Token.isDeclaration at noDeclaration
  unfold Token.IsPlain
  cases kind : t.kind with
  | declaration form => simp [kind] at noDeclaration
  | word => exact word kind
  | symbol | endOfText => trivial

end DefersCalls

namespace Expansion

open Definition (Defers)

variable {source : Source} {budget : Nat} {chain : List Text} {origin : Option Location}
variable {tokens : List Token} {dictionary dictionary' before before' after : Dictionary}
variable {items : List Item} {flat : List Operation} {limit : Int}

/-- A source that expands with macros in place of its functions expands with the functions, too. -/
theorem Expands.exists_calls (source' : Source) (alike : before.Like Defers before')
    (defers : DefersCalls tokens) (made : ∀ t ∈ tokens, t.MadeOf fun _ => True)
    (expands : Expands source budget chain origin (tokens.map Token.asMacro) before' items after)
    (room : budget ≤ limit.toNat) (spelled : List.Forall₂ LoopBinder.Spells items flat) :
    ∃ left ops items', left.Like Defers after ∧
      Expands source' budget chain origin tokens before items' left ∧
      List.Forall₂ LoopBinder.Spells items' ops ∧
      ((∀ c ∈ ops.filterMap Operation.call?, left.Compiles limit c) →
        Inlined left limit ops flat) := by
  -- declaration by declaration; from the first other token on the tokens are plain
  induction tokens generalizing before before' items flat with
  | nil =>
    cases expands
    cases spelled
    exact ⟨before, [], [], alike, .nil, .nil, fun _ => .nil⟩
  | cons token rest ih =>
    by_cases declares : token.isDeclaration
    · obtain ⟨kind, value, line, column⟩ := token
      cases kind with
      | symbol | word | endOfText => cases declares
      | declaration kind =>
        cases expands with
        | declaration same read declared expands =>
          cases same
          have free := defers.bodies _ List.mem_cons_self rfl
          obtain ⟨d, read', same⟩ := exists_readDeclaration read free
            (source'.place origin ⟨.declaration kind, value, line, column⟩)
          have flipped : Dictionary.Like (flip Defers) before' before := alike.flip
          obtain ⟨between, declared', alike'⟩ :=
            flipped.exists_declare (fun same => same.name.symm) same declared
          obtain ⟨left, ops, items', alike, expands', spelled', inlined⟩ :=
            ih alike'.flip defers.tail (List.forall_mem_cons.mp made).2 expands spelled
          exact ⟨left, ops, items', alike, .declaration rfl read' declared' expands', spelled',
            inlined⟩
        | endOfText same => cases same
        | symbol same => cases same
        | plainWord same => cases same
        | call same => cases same
        | body same => cases same
    · have plain := defers.plain declares
      have same : (token :: rest).map Token.asMacro = token :: rest := by
        rw [List.map_congr_left fun t member => Token.asMacro_of_plain (made t member)
          (plain t member), List.map_id']
      rw [same] at expands
      obtain ⟨rfl, ops, calling⟩ := expands.calling alike rfl plain room spelled
      obtain ⟨items', expands', spelled'⟩ :=
        calling.expands source' budget chain origin (Nat.le_refl _) (List.Subset.refl _)
      exact ⟨before, ops, items', alike, expands', spelled', calling.inlined⟩

end Expansion

end TapeLang
