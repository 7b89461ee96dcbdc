import Mathlib.Data.List.Forall2
import TapeLang.Proofs.Program

/-! Binding of loops looks at operations only. The instructions of a program are those that
its items stand for, and items with the same operations are bound alike wherever they
stand. -/
namespace TapeLang

/-- An instruction without its place. -/
def Instruction.unplaced {ι : Type} (i : Instruction ι) : Instruction ι :=
  { i with location := none }

/-- An instruction with its place changed. -/
def Instruction.relocate {ι : Type} (f : Option Location → Option Location) (i : Instruction ι) :
    Instruction ι :=
  { i with location := f i.location }

theorem modify_map {α β : Type} {a : Array α} {f : α → α} {g : β → β} {h : α → β}
    (commutes : ∀ x, h (f x) = g (h x)) (k : Nat) :
    (a.modify k f).map h = (a.map h).modify k g := by
  apply Array.ext_getElem?
  intro j
  simp only [Array.getElem?_map, Array.getElem?_modify]
  split
  · cases a[j]? <;> simp [commutes]
  · rfl

/-- The operations of a list of instructions, each with its place. -/
def placedOperations (code : Array Instruction) : List (Operation × Option Location) :=
  code.toList.map fun i => (i.op, i.location)

theorem map_fst_placedOperations (code : Array Instruction) :
    (placedOperations code).map Prod.fst = code.toList.map (·.op) := by
  rw [placedOperations, List.map_map]
  rfl

theorem placedOperations_modify (code : Array Instruction) (opening position : Nat) :
    placedOperations (code.modify opening (·.bind position)) = placedOperations code := by
  have kept := modify_map (a := code) (f := (·.bind position)) (g := id)
    (h := fun i => (i.op, i.location)) (fun _ => rfl) opening
  have untouched (a : Array (Operation × Option Location)) : a.modify opening id = a := by
    apply Array.ext'
    rw [Array.toList_modify, List.modify_id]
  rw [placedOperations, ← Array.toList_map, kept, untouched, Array.toList_map, placedOperations]

namespace LoopBinder

variable {b c after : LoopBinder} {i j : Instruction}

/-- The operations added so far. -/
def operations (b : LoopBinder) : List Operation := b.instructions.toList.map (·.op)

/-- A binder without the places of its instructions. -/
def unplaced (b : LoopBinder) : LoopBinder :=
  { b with instructions := b.instructions.map Instruction.unplaced }

theorem placed_emit (emitted : b.emit i = .ok after) :
    placedOperations after.instructions =
      placedOperations b.instructions ++ [(i.op, i.location)] := by
  have pushed (code : Array Instruction) (j : Instruction) :
      placedOperations (code.push j) = placedOperations code ++ [(j.op, j.location)] := by
    simp [placedOperations]
  unfold emit at emitted
  dsimp only at emitted
  split at emitted
  · cases emitted
    exact pushed _ _
  · split at emitted
    · cases emitted
    · cases emitted
      rw [pushed, placedOperations_modify]
      rfl
  · cases emitted
    exact pushed _ _

theorem operations_emit (emitted : b.emit i = .ok after) :
    after.operations = b.operations ++ [i.op] := by
  rw [operations, operations, ← map_fst_placedOperations, placed_emit emitted,
    List.map_append, map_fst_placedOperations]
  rfl

/-- A binder with the places of its instructions changed. -/
def relocate (f : Option Location → Option Location) (b : LoopBinder) : LoopBinder :=
  { b with instructions := b.instructions.map (Instruction.relocate f) }

/-- Binding goes the same way wherever the instructions stand. -/
theorem toOption_emit_relocate (f : Option Location → Option Location) (b : LoopBinder)
    (i : Instruction) :
    ((b.relocate f).emit (i.relocate f)).toOption = (b.emit i).toOption.map (relocate f) := by
  have commutes (k : Nat) (j : Instruction) : (j.bind k).relocate f = (j.relocate f).bind k := rfl
  have bound (a : Array Instruction) (opening k : Nat) :
      (a.modify opening (·.bind k)).map (Instruction.relocate f) =
        (a.map (Instruction.relocate f)).modify opening (·.bind k) :=
    modify_map (commutes k) opening
  have op : (i.relocate f).op = i.op := rfl
  obtain ⟨instructions, pending⟩ := b
  unfold emit relocate
  dsimp only
  rw [op, Array.size_map]
  split
  · simp [Except.toOption]
  · cases pending with
    | nil => rfl
    | cons opening rest => simp [Except.toOption, bound, commutes]
  · simp [Except.toOption]

theorem toOption_finish_relocate (f : Option Location → Option Location) (b : LoopBinder) :
    (b.relocate f).finish.toOption =
      b.finish.toOption.map (Array.map (Instruction.relocate f)) := by
  obtain ⟨instructions, pending⟩ := b
  unfold finish relocate
  cases pending <;> rfl

theorem emit_unplaced (sameBinder : c.unplaced = b.unplaced)
    (sameInstruction : j.unplaced = i.unplaced) (emitted : b.emit i = .ok after) :
    ∃ next, c.emit j = .ok next ∧ next.unplaced = after.unplaced := by
  have left := toOption_emit_relocate (fun _ => none) b i
  have right := toOption_emit_relocate (fun _ => none) c j
  rw [show c.relocate (fun _ => none) = b.relocate (fun _ => none) from sameBinder,
    show j.relocate (fun _ => none) = i.relocate (fun _ => none) from sameInstruction, left,
    emitted] at right
  cases moved : c.emit j with
  | error e => rw [moved] at right; cases right
  | ok next =>
    rw [moved] at right
    exact ⟨next, rfl, (Option.some.inj right).symm⟩

/-- Whether an item stands for an operation. -/
def Spells (item : Item) (op : Operation) : Prop :=
  ∃ location, item.instruction = .ok { op, location }

theorem consume_eq_ok_iff {item : Item} :
    b.consume item = .ok after ↔ ∃ i, item.instruction = .ok i ∧ b.emit i = .ok after := by
  unfold LoopBinder.consume
  cases item.instruction with
  | error e => exact ⟨nofun, by rintro ⟨_, ⟨⟩, _⟩⟩
  | ok i => exact ⟨fun ended => ⟨i, rfl, ended⟩, by rintro ⟨i, ⟨⟩, ended⟩; exact ended⟩

theorem instruction_spells {item : Item} (made : item.instruction = .ok i) :
    Spells item i.op := by
  unfold Spells
  rw [made]
  cases item with
  | plain text location =>
    simp only [Item.instruction, Instruction.ofText] at made
    cases found : Command.ofText? text with
    | none => rw [found] at made; cases made
    | some command =>
      rw [found] at made
      cases made
      exact ⟨_, rfl⟩
  | call d args location =>
    cases made
    exact ⟨_, rfl⟩

/-- A call operation comes from a call item. -/
theorem exists_call_item {items : List Item} {ops : List Operation}
    (spelled : List.Forall₂ Spells items ops) {target : Text} {args : List Text}
    (member : .call target args ∈ ops) :
    ∃ d location, d.name = target ∧ Item.call d args location ∈ items := by
  induction spelled with
  | nil => cases member
  | @cons item op _ _ one _ ih =>
    rcases List.mem_cons.mp member with rfl | later
    · obtain ⟨location, made⟩ := one
      cases item with
      | plain word place =>
        simp only [Item.instruction, Instruction.ofText] at made
        cases found : Command.ofText? word with
        | none => rw [found] at made; cases made
        | some c => rw [found] at made; cases made
      | call d args place =>
        cases made
        exact ⟨d, place, rfl, List.mem_cons_self⟩
    · obtain ⟨d, place, named, listed⟩ := ih later
      exact ⟨d, place, named, List.mem_cons_of_mem _ listed⟩

/-- The operations of a binder are those that its items stand for. -/
theorem operations_foldlM {items : List Item} (taken : items.foldlM consume b = .ok after) :
    ∃ ops, after.operations = b.operations ++ ops ∧ List.Forall₂ Spells items ops := by
  induction items generalizing b with
  | nil =>
    cases taken
    exact ⟨[], by simp, .nil⟩
  | cons item rest ih =>
    obtain ⟨next, one, tail⟩ := foldlM_cons_eq_ok_iff.mp taken
    obtain ⟨i, made, emitted⟩ := consume_eq_ok_iff.mp one
    obtain ⟨ops, added, spelled⟩ := ih tail
    refine ⟨i.op :: ops, ?_, .cons (instruction_spells made) spelled⟩
    rw [added, operations_emit emitted, List.append_assoc, List.singleton_append]

/-- Items that stand for the same operations are bound alike. -/
theorem foldlM_unplaced {items items' : List Item} {ops : List Operation}
    (spelled : List.Forall₂ Spells items ops) (spelled' : List.Forall₂ Spells items' ops)
    (same : c.unplaced = b.unplaced) (taken : items.foldlM consume b = .ok after) :
    ∃ next, items'.foldlM consume c = .ok next ∧ next.unplaced = after.unplaced := by
  induction spelled generalizing items' b c with
  | nil =>
    cases spelled'
    cases taken
    exact ⟨c, rfl, same⟩
  | @cons item op _ _ one _ ih =>
    cases spelled' with
    | cons one' tail' =>
      obtain ⟨location, made⟩ := one
      obtain ⟨location', made'⟩ := one'
      obtain ⟨next, first, tail⟩ := foldlM_cons_eq_ok_iff.mp taken
      obtain ⟨i, made₂, emitted⟩ := consume_eq_ok_iff.mp first
      obtain rfl : i = _ := Except.ok.inj (made₂.symm.trans made)
      have moved : ({ op, location := location' } : Instruction).unplaced =
        ({ op, location } : Instruction).unplaced := rfl
      obtain ⟨next', emitted', same'⟩ := emit_unplaced same moved emitted
      obtain ⟨last, taken', sameLast⟩ := ih tail' same' tail
      exact ⟨last, foldlM_cons_eq_ok_iff.mpr
        ⟨next', consume_eq_ok_iff.mpr ⟨_, made', emitted'⟩, taken'⟩, sameLast⟩

theorem finish_eq_ok_iff {code : Array Instruction} :
    b.finish = .ok code ↔ b.pending = [] ∧ b.instructions = code := by
  unfold finish
  split
  · rename_i empty
    simp [empty]
  · rename_i innermost others found
    simp [found]

end LoopBinder

namespace Source

variable {source : Source} {tokens : List Token}

/-- What a parsed program is: its tokens expand to items that are bound to its
instructions. -/
theorem run_parse_eq_ok_iff {before after : Dictionary} {program : Program} :
    (source.parse tokens).run before = .ok program after ↔
      ∃ items binder, Expansion.Expands source source.limit.toNat [] none tokens before items after ∧
        items.foldlM LoopBinder.consume {} = .ok binder ∧
        binder.pending = [] ∧ program = ⟨binder.instructions, after⟩ := by
  rw [run_parse, run_consumeAll, expand]
  constructor
  · intro ended
    cases expanded : (Expansion.expandWithin source LoopBinder.consume source.limit.toNat [] none
      tokens).run ⟨before, {}⟩ with
    | error e p => rw [expanded] at ended; cases ended
    | ok u p =>
      rw [expanded] at ended
      dsimp only at ended
      cases finished : p.consumed.finish with
      | error e => rw [finished] at ended; cases ended
      | ok code =>
        rw [finished] at ended
        cases ended
        obtain ⟨closed, rfl⟩ := LoopBinder.finish_eq_ok_iff.mp finished
        obtain ⟨items, expands, taken⟩ := Expansion.run_expandWithin_eq_ok_iff.mp expanded
        exact ⟨items, p.consumed, expands, taken, closed, rfl⟩
  · rintro ⟨items, binder, expands, taken, closed, rfl⟩
    have expanded := Expansion.run_expandWithin_of_expands expands taken
    have finished := LoopBinder.finish_eq_ok_iff.mpr ⟨closed, rfl⟩
    rw [expanded]
    dsimp only
    rw [finished]

/-- The operations of a parsed program are those that its items stand for. -/
theorem exists_spelled {before after : Dictionary} {program : Program}
    (parsed : (source.parse tokens).run before = .ok program after) :
    ∃ items, Expansion.Expands source source.limit.toNat [] none tokens before items after ∧
      List.Forall₂ LoopBinder.Spells items (program.instructions.toList.map (·.op)) := by
  obtain ⟨items, binder, expands, taken, -, rfl⟩ := run_parse_eq_ok_iff.mp parsed
  obtain ⟨ops, added, spelled⟩ := LoopBinder.operations_foldlM taken
  have operations : binder.instructions.toList.map (·.op) = ops := by
    simpa [LoopBinder.operations] using added
  exact ⟨items, expands, operations ▸ spelled⟩

/-- Items that stand for the operations of a parsed program are bound to the same instructions,
places aside. -/
theorem exists_parse_of_spells {before after before' after' : Dictionary} {p : Program}
    (parsed : (source.parse tokens).run before = .ok p after) {source' : Source}
    {tokens' : List Token} {items : List Item}
    (expands : Expansion.Expands source' source'.limit.toNat [] none tokens' before' items after')
    (spelled : List.Forall₂ LoopBinder.Spells items (p.instructions.toList.map (·.op))) :
    ∃ q, (source'.parse tokens').run before' = .ok q after' ∧
      q.instructions.map Instruction.unplaced = p.instructions.map Instruction.unplaced := by
  obtain ⟨first, binder, -, taken, closed, rfl⟩ := run_parse_eq_ok_iff.mp parsed
  obtain ⟨ops, added, spelledFirst⟩ := LoopBinder.operations_foldlM taken
  have operations : binder.instructions.toList.map (·.op) = ops := by
    simpa [LoopBinder.operations] using added
  rw [operations] at spelled
  obtain ⟨next, again, alike⟩ := LoopBinder.foldlM_unplaced spelledFirst spelled rfl taken
  have pending : next.pending = [] := (congrArg (·.pending) alike).trans closed
  exact ⟨_, run_parse_eq_ok_iff.mpr ⟨items, next, expands, again, pending, rfl⟩,
    congrArg (·.instructions) alike⟩

/-- A program carries the dictionary that reading it leaves. -/
theorem definitions_eq {before after : Dictionary} {program : Program}
    (parsed : (source.parse tokens).run before = .ok program after) :
    program.definitions = after := by
  obtain ⟨_, _, _, _, _, rfl⟩ := run_parse_eq_ok_iff.mp parsed
  rfl

end Source

/-- The program that a text reads as, with no definition in force before it. -/
def Program.ofText (file text : Text) (limit : Int) : Except SourceError Program := do
  let tokens ← tokenize file text
  outcome (((Source.ofText file text limit).parse tokens).run {})

/-- What can be said of a program that a text reads as. -/
theorem Program.ofText_eq_ok_iff {file text : Text} {limit : Int} {p : Program} :
    ofText file text limit = .ok p ↔
    ∃ tokens, tokenize file text = .ok tokens ∧
      ((Source.ofText file text limit).parse tokens).run {} = .ok p p.definitions := by
  unfold ofText
  cases lexed : tokenize file text with
  | error e => exact ⟨nofun, by rintro ⟨_, ⟨⟩, _⟩⟩
  | ok tokens =>
    rw [show (Except.ok tokens >>= fun tokens =>
      outcome (((Source.ofText file text limit).parse tokens).run {})) =
        outcome (((Source.ofText file text limit).parse tokens).run {}) from rfl]
    cases parsed : ((Source.ofText file text limit).parse tokens).run {} with
    | error e after => exact ⟨nofun, by rintro ⟨_, ⟨⟩, again⟩; cases parsed.symm.trans again⟩
    | ok program after =>
      obtain ⟨_, _, _, _, _, rfl⟩ := Source.run_parse_eq_ok_iff.mp parsed
      constructor
      · rintro ⟨⟩
        exact ⟨tokens, rfl, parsed⟩
      · rintro ⟨_, ⟨⟩, again⟩
        cases parsed.symm.trans again
        rfl

end TapeLang
