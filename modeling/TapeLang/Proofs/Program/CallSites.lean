import TapeLang.Proofs.Program.LoopBinder
import TapeLang.Proofs.Token.Positions

/-! Where instructions stand. What a token gives, through however many expansions, stands in the
place of the token, and what several tokens give stands in their order. -/
namespace TapeLang

/-- Whether a token stands for instructions. -/
def Token.IsCode (t : Token) : Prop := t.kind = .symbol ∨ t.kind = .word

instance : DecidablePred Token.IsCode := fun t =>
  inferInstanceAs (Decidable (t.kind = .symbol ∨ t.kind = .word))

namespace Expansion

variable {source : Source} {budget : Nat} {chain : List Text} {tokens : List Token}
variable {before after : Dictionary} {items : List Item}

/-- Inside of an expansion everything stands in the place of the outermost call. -/
theorem Expands.location {place : Location}
    (expands : Expands source budget chain (some place) tokens before items after) :
    ∀ item ∈ items, item.location = place := by
  generalize same : some place = origin at expands
  induction expands with
  | nil | endOfText => exact List.forall_mem_nil _
  | declaration _ _ _ _ ih => exact ih same
  | symbol _ _ ih | plainWord _ _ _ _ ih | call _ _ _ _ _ _ ih =>
    subst same
    exact List.forall_mem_cons.mpr ⟨rfl, ih rfl⟩
  | body _ _ _ _ _ _ _ _ ihBody ihRest =>
    subst same
    exact List.forall_mem_append.mpr ⟨ihBody rfl, ihRest rfl⟩

/-- The items come in groups, one for each token that stands for instructions and in its place. -/
def Grouped (source : Source) (tokens : List Token) (items : List Item) : Prop :=
  ∃ groups : List (Token × List Item),
    groups.map Prod.fst = (tokens.takeWhile (·.kind ≠ .endOfText)).filter (·.IsCode) ∧
    groups.flatMap Prod.snd = items ∧
    ∀ g ∈ groups, ∀ item ∈ g.2, item.location = source.locate g.1

theorem Grouped.code {token : Token} {inner : List Item} (code : token.IsCode)
    (here : ∀ item ∈ inner, item.location = source.locate token)
    (grouped : Grouped source tokens items) :
    Grouped source (token :: tokens) (inner ++ items) := by
  obtain ⟨groups, named, rfl, places⟩ := grouped
  have unended : token.kind ≠ .endOfText := by
    rcases code with kind | kind <;> simp [kind]
  refine ⟨(token, inner) :: groups, ?_, rfl, List.forall_mem_cons.mpr ⟨here, places⟩⟩
  simp only [List.map_cons, named]
  simp [unended, code]

theorem Expands.grouped (expands : Expands source budget chain none tokens before items after) :
    Grouped source tokens items := by
  generalize same : none = origin at expands
  induction expands with
  | nil => exact ⟨[], rfl, rfl, List.forall_mem_nil _⟩
  | endOfText kind => exact ⟨[], by simp [kind], rfl, List.forall_mem_nil _⟩
  | declaration kind _ _ _ ih =>
    obtain ⟨groups, named, items, places⟩ := ih same
    exact ⟨groups, by simpa [kind, Token.IsCode] using named, items, places⟩
  | symbol kind _ ih =>
    subst same
    exact (ih rfl).code (.inl kind) (List.forall_mem_singleton.mpr rfl)
  | plainWord kind _ _ _ ih | call kind _ _ _ _ _ ih =>
    subst same
    exact (ih rfl).code (.inr kind) (List.forall_mem_singleton.mpr rfl)
  | body kind _ _ _ _ _ inside _ _ ihRest =>
    subst same
    exact (ihRest rfl).code (.inr kind) inside.location

end Expansion

theorem map_snd_placedOperations (code : Array Instruction) :
    (placedOperations code).map Prod.snd = code.toList.map (·.location) := by
  rw [placedOperations, List.map_map]
  rfl

namespace LoopBinder

theorem location_instruction {item : Item} {i : Instruction} (made : item.instruction = .ok i) :
    i.location = some item.location := by
  cases item with
  | call =>
    cases made
    rfl
  | plain text location =>
    simp only [Item.instruction, Instruction.ofText] at made
    split at made <;> cases made
    rfl

/-- Binding leaves instructions in the places of their items. -/
theorem locations_foldlM {items : List Item} {b after : LoopBinder}
    (taken : items.foldlM consume b = .ok after) :
    (placedOperations after.instructions).map Prod.snd =
      (placedOperations b.instructions).map Prod.snd ++ items.map fun item => some item.location := by
  induction items generalizing b with
  | nil =>
    cases taken
    simp
  | cons item items ih =>
    obtain ⟨next, one, rest⟩ := foldlM_cons_eq_ok_iff.mp taken
    obtain ⟨i, made, emitted⟩ := consume_eq_ok_iff.mp one
    rw [ih rest, placed_emit emitted]
    simp [location_instruction made]

end LoopBinder

/-- What is divided into groups by tokens can be divided so too when it was made one by one. -/
theorem exists_runs_of_groups {f : Token → Location} {groups : List (Token × List Item)}
    {code : List Instruction}
    (same : code.map (·.location) = (groups.flatMap Prod.snd).map fun item => some item.location)
    (places : ∀ g ∈ groups, ∀ item ∈ g.2, item.location = f g.1) :
    ∃ runs : List (Token × List Instruction), runs.map Prod.fst = groups.map Prod.fst ∧
      runs.flatMap Prod.snd = code ∧ ∀ r ∈ runs, ∀ i ∈ r.2, i.location = some (f r.1) := by
  induction groups generalizing code with
  | nil =>
    rw [List.flatMap_nil, List.map_nil, List.map_eq_nil_iff] at same
    subst same
    exact ⟨[], rfl, rfl, List.forall_mem_nil _⟩
  | cons g groups ih =>
    rw [List.flatMap_cons, List.map_append] at same
    obtain ⟨first, rest, rfl, sameFirst, sameRest⟩ := List.map_eq_append_iff.mp same
    obtain ⟨here, later⟩ := List.forall_mem_cons.mp places
    obtain ⟨runs, tokens, rfl, located⟩ := ih sameRest later
    refine ⟨(g.1, first) :: runs, by simp [tokens], rfl, ?_⟩
    refine List.forall_mem_cons.mpr ⟨?_, located⟩
    intro i member
    have listed : i.location ∈ g.2.map fun item => some item.location :=
      sameFirst ▸ List.mem_map_of_mem member
    obtain ⟨item, inGroup, placed⟩ := List.mem_map.mp listed
    rw [← placed, here item inGroup]

namespace Source

variable {source : Source} {file text : Text} {tokens : List Token} {before after : Dictionary}
variable {p : Program}

/-- Each token that stands for instructions gives one run of them, in the order of the tokens. All
instructions of a run stand in the place of its token, so the places, which the tokens have in
strictly increasing order, never decrease along the instructions. -/
theorem exists_runs_of_parse (lexed : tokenize file text = .ok tokens)
    (parsed : (source.parse tokens).run before = .ok p after) :
    ∃ runs : List (Token × List Instruction),
      runs.map Prod.fst = tokens.filter (·.IsCode) ∧
      runs.flatMap Prod.snd = p.instructions.toList ∧
      (∀ r ∈ runs, ∀ i ∈ r.2, i.location = some (source.locate r.1)) ∧
      (tokens.map Token.place).Pairwise (· < ·) ∧
      ∃ places : List Location, p.instructions.toList.map (·.location) = places.map some ∧
        (places.map Location.place).Pairwise (· ≤ ·) := by
  obtain ⟨items, binder, expands, taken, -, rfl⟩ := run_parse_eq_ok_iff.mp parsed
  obtain ⟨groups, named, rfl, places⟩ := expands.grouped
  have locations : binder.instructions.toList.map (·.location) =
      (groups.flatMap Prod.snd).map fun item => some item.location := by
    rw [← map_snd_placedOperations, LoopBinder.locations_foldlM taken]
    rfl
  obtain ⟨front, last, rfl, ended, unended⟩ := exists_concat_of_tokenize lexed
  have code : ((front ++ [last]).takeWhile (·.kind ≠ .endOfText)).filter (·.IsCode) =
      (front ++ [last]).filter (·.IsCode) := by
    rw [List.takeWhile_append_of_pos (by simpa using unended)]
    simp [ended, Token.IsCode]
  rw [code] at named
  have increasing := (places_of_tokenize lexed).1
  obtain ⟨runs, tokens, instructions, located⟩ := exists_runs_of_groups locations places
  refine ⟨runs, tokens.trans named, instructions, located, increasing,
    (groups.flatMap Prod.snd).map Item.location, by simp [locations], ?_⟩
  have ordered : groups.Pairwise fun g h => g.1.place < h.1.place := by
    have sublist : (groups.map Prod.fst).Pairwise fun s t => s.place < t.place := by
      rw [named]
      exact (List.pairwise_map.mp increasing).filter _
    exact .of_map Prod.fst (fun _ _ before => before) sublist
  rw [List.map_map, List.pairwise_map, List.pairwise_flatMap]
  constructor
  · intro g member
    refine List.pairwise_of_forall_mem_list fun x inGroup y inGroup' => ?_
    simp [places g member x inGroup, places g member y inGroup']
  · refine ordered.imp_of_mem fun {g h} member member' before x inGroup y inGroup' => ?_
    simp only [Function.comp_apply, places g member x inGroup, places h member' y inGroup',
      place_locate]
    exact before.le

/-- A loop and a call behind it, each around calls of a macro inside a macro. -/
def nestedCalls : Text := "$i(n) = n n\n$o = i(+) -\n[o] i(o)".toList

/-- What comes out of two expansions stands where the outer one was called. -/
theorem exists_runs_of_nestedCalls :
    ∃ tokens p, tokenize [] nestedCalls = .ok tokens ∧
      ((ofText [] nestedCalls 5).parse tokens).run {} = .ok p p.definitions ∧
      (p.instructions.toList.map fun i => i.location.map fun l => (l.line, l.column)) =
        [some (3, 1), some (3, 2), some (3, 2), some (3, 2), some (3, 3)] ++
          List.replicate 6 (some (3, 5)) ∧
      ∃ runs : List (Token × List Instruction),
        runs.map Prod.fst = tokens.filter (·.IsCode) ∧
        runs.flatMap Prod.snd = p.instructions.toList ∧
        (∀ r ∈ runs, ∀ i ∈ r.2, i.location = some ((ofText [] nestedCalls 5).locate r.1)) ∧
        (tokens.map Token.place).Pairwise (· < ·) ∧
        ∃ places : List Location, p.instructions.toList.map (·.location) = places.map some ∧
          (places.map Location.place).Pairwise (· ≤ ·) := by
  have places : (Program.ofText [] nestedCalls 5).toOption.map (fun p =>
      p.instructions.toList.map fun i => i.location.map fun l => (l.line, l.column)) =
        some ([some (3, 1), some (3, 2), some (3, 2), some (3, 2), some (3, 3)] ++
          List.replicate 6 (some (3, 5))) := by decide +kernel
  cases read : Program.ofText [] nestedCalls 5 with
  | error e =>
    rw [read] at places
    cases places
  | ok p =>
    rw [read] at places
    obtain ⟨tokens, lexed, parsed⟩ := Program.ofText_eq_ok_iff.mp read
    exact ⟨tokens, p, lexed, parsed, Option.some.inj places, exists_runs_of_parse lexed parsed⟩

end Source
end TapeLang
