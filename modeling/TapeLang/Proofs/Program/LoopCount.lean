import TapeLang.Program.LoopCheck
import TapeLang.Proofs.Expansion.Sound
import TapeLang.Proofs.Program.Callees
import TapeLang.Proofs.Program.LoopBinder

/-! Counting and binding see the same brackets. A token list is counted without an error
exactly when it is a program, and then the count is the number of its loops, with its calls
beside it. -/
namespace TapeLang

namespace LoopCount

/-- A count that went through the same items as a binder. -/
structure Agrees (b : LoopBinder) (k : LoopCount) : Prop where
  pending : List.Forall₂
    (fun place j => (b.instructions[j]?).bind (·.location) = some place) k.pending b.pending
  loops : k.loops + k.pending.length = b.operations.count (.command .jump)
  calls : (k.calls.map fun c => c.1.callWith c.2).reverse = b.operations.filterMap Operation.call?

theorem Agrees.empty : Agrees {} {} := ⟨.nil, rfl, rfl⟩

theorem location_push {code : Array Instruction} {j : Nat} {place : Location}
    (found : (code[j]?).bind (·.location) = some place) (i : Instruction) :
    ((code.push i)[j]?).bind (·.location) = some place := by
  have inside : j < code.size := by
    by_contra outside
    rw [Array.getElem?_eq_none (by omega)] at found
    cases found
  rw [Array.getElem?_push_lt inside, ← Array.getElem?_eq_getElem inside]
  exact found

theorem location_modify (code : Array Instruction) (opening position j : Nat) :
    ((code.modify opening (·.bind position))[j]?).bind (·.location) =
      (code[j]?).bind (·.location) := by
  rw [Array.getElem?_modify]
  split
  · cases code[j]? <;> rfl
  · rfl

/-- Counting and binding refuse the same items. -/
theorem inStep : Expansion.InStep Agrees LoopBinder.consume consume := by
  intro b k item agrees
  unfold LoopBinder.consume consume
  have pushed (i : Instruction) := agrees.pending.imp fun _ _ found => location_push found i
  cases item with
  | call d args location =>
    refine .ok ⟨pushed _, ?_, ?_⟩
    · simpa [LoopBinder.operations] using agrees.loops
    · simpa [LoopBinder.operations, Operation.call?, Definition.callWith] using agrees.calls
  | plain text location =>
    simp only [Item.instruction, Instruction.ofText]
    cases found : Command.ofText? text with
    | none => exact .error
    | some c =>
      cases c with
      | act action =>
        refine .ok ⟨pushed _, ?_, ?_⟩
        · simpa [LoopBinder.operations] using agrees.loops
        · simpa [LoopBinder.operations, List.filterMap_cons, Operation.call?] using agrees.calls
      | jump =>
        refine .ok ⟨.cons (by simp) (pushed _), ?_, ?_⟩
        · have counted := agrees.loops
          simp only [LoopBinder.operations] at counted
          simp only [LoopBinder.operations, Array.toList_push, List.map_append, List.count_append,
            List.length_cons, ← counted]
          simp
          omega
        · simpa [LoopBinder.operations, List.filterMap_cons, Operation.call?] using agrees.calls
      | back =>
        obtain ⟨loops, places, calls⟩ := k
        obtain ⟨code, pending⟩ := b
        obtain ⟨matched, counted, called⟩ := agrees
        dsimp only at matched
        cases matched with
        | nil => exact .error
        | @cons place opening places pending first others =>
          refine .ok ⟨?_, ?_, ?_⟩
          · refine others.imp fun place j found => location_push ?_ _
            rw [location_modify]
            exact found
          · have closed := LoopBinder.operations_emit (b := ⟨code, opening :: pending⟩)
              (i := ⟨.command .back, none, some location⟩) rfl
            simp only [closed, List.count_append, ← counted]
            simp
            omega
          · have closed := LoopBinder.operations_emit (b := ⟨code, opening :: pending⟩)
              (i := ⟨.command .back, none, some location⟩) rfl
            simp only [closed, List.filterMap_append, ← called]
            simp [Operation.call?]

/-- The last words agree: both find the same open bracket, or none. -/
theorem finish_inStep {b : LoopBinder} {k : LoopCount} (agrees : Agrees b k) :
    SameStep (fun code counted => counted.1 = (code.toList.map (·.op)).count (.command .jump) ∧
        (counted.2.map fun c => c.1.callWith c.2).reverse =
          (code.toList.map (·.op)).filterMap Operation.call?)
      b.finish k.finish := by
  obtain ⟨loops, places, calls⟩ := k
  obtain ⟨code, pending⟩ := b
  obtain ⟨matched, counted, called⟩ := agrees
  dsimp only at matched
  unfold LoopBinder.finish finish
  cases matched with
  | nil => exact .ok ⟨counted, called⟩
  | cons first others =>
    dsimp only
    rw [first]
    exact .error

theorem calls_consume {item : Item} {before after : LoopCount}
    (taken : before.consume item = .ok after) {c : Definition × List Text}
    (member : c ∈ after.calls) : c ∈ before.calls ∨ ∃ location, item = .call c.1 c.2 location := by
  cases item with
  | call d args location =>
    cases taken
    rcases List.mem_cons.mp member with rfl | earlier
    · exact .inr ⟨location, rfl⟩
    · exact .inl earlier
  | plain text location =>
    left
    simp only [consume, Instruction.ofText] at taken
    cases found : Command.ofText? text with
    | none => rw [found] at taken; cases taken
    | some command =>
      rw [found] at taken
      cases command with
      | act action => cases taken; exact member
      | jump => cases taken; exact member
      | back =>
        obtain ⟨loops, places, calls⟩ := before
        cases places with
        | nil => cases taken
        | cons place places => cases taken; exact member

/-- The calls that were met are those of the items. -/
theorem calls_foldlM {items : List Item} {before after : LoopCount}
    (taken : items.foldlM consume before = .ok after) {c : Definition × List Text}
    (member : c ∈ after.calls) : c ∈ before.calls ∨ ∃ location, .call c.1 c.2 location ∈ items := by
  induction items generalizing before with
  | nil =>
    cases taken
    exact .inl member
  | cons item items ih =>
    obtain ⟨next, one, rest⟩ := foldlM_cons_eq_ok_iff.mp taken
    rcases ih rest with earlier | ⟨location, listed⟩
    · rcases calls_consume one earlier with before | ⟨location, rfl⟩
      · exact .inl before
      · exact .inr ⟨location, List.mem_cons_self⟩
    · exact .inr ⟨location, List.mem_cons_of_mem _ listed⟩

end LoopCount

namespace Source

variable {source : Source} {tokens : List Token} {before after : Dictionary}

/-- The calls that a count met are calls of functions of the dictionary that is left. -/
theorem ownLoops_resolved {counted : Nat × List (Definition × List Text)}
    (ended : (source.ownLoops tokens).run before = .ok counted after) :
    ∀ c ∈ counted.2, after.find? c.1.name = some c.1 := by
  intro c member
  rw [ownLoops, run_consumeAll, expand] at ended
  cases expanded : (Expansion.expandWithin source LoopCount.consume source.limit.toNat [] none
    tokens).run ⟨before, {}⟩ with
  | error e p => rw [expanded] at ended; cases ended
  | ok u p =>
    rw [expanded] at ended
    dsimp only at ended
    obtain ⟨items, expands, taken⟩ := Expansion.run_expandWithin_eq_ok_iff.mp expanded
    obtain ⟨dictionary, loops, pending, calls⟩ := p
    cases pending with
    | cons place places => cases ended
    | nil =>
      cases ended
      rcases LoopCount.calls_foldlM taken member with none_yet | ⟨location, listed⟩
      · cases none_yet
      · exact (expands.resolves _ listed).1

/-- A token list that is a program is counted: its loops, and its calls from the last one. Where
it is not, counting ends as reading does. -/
theorem run_ownLoops (source : Source) (tokens : List Token) (before : Dictionary) :
    match (source.parse tokens).run before with
    | .error e after => (source.ownLoops tokens).run before = .error e after
    | .ok p after => ∃ calls, (source.ownLoops tokens).run before = .ok (p.loops, calls) after ∧
        (calls.map fun c => c.1.callWith c.2) = p.callees.reverse ∧
        ∀ c ∈ calls, after.find? c.1.name = some c.1 := by
  have same := consumeAll_inStep LoopCount.inStep .empty
    (fun _ _ => LoopCount.finish_inStep) source tokens before
  rw [run_parse]
  cases bound : (source.consumeAll tokens {} LoopBinder.consume LoopBinder.finish).run before with
  | error e after =>
    rw [bound] at same
    exact same
  | ok code after =>
    rw [bound] at same
    obtain ⟨⟨loops, calls⟩, counted, number, met⟩ := same
    dsimp only at number met ⊢
    subst number
    refine ⟨calls, counted, ?_, ownLoops_resolved counted⟩
    rw [← List.reverse_reverse (calls.map _), met]
    rfl

/-- A check fails wherever reading fails, with the same error, and counts the loops of a program
without calls. Either way it leaves the dictionary that reading leaves. -/
theorem check_of_parse (source : Source) (tokens : List Token) (before : Dictionary) :
    (∀ e after, (source.parse tokens).run before = .error e after →
      (source.check tokens).run before = .error e after) ∧
    ∀ p after, (source.parse tokens).run before = .ok p after → p.calls = [] →
      (source.check tokens).run before = .ok p.loops after := by
  have own := run_ownLoops source tokens before
  constructor
  · intro e after failed
    rw [failed] at own
    exact run_bind_of_error own _
  · intro p after parsed flat
    rw [parsed] at own
    obtain ⟨calls, counted, met, -⟩ := own
    rw [Program.callees_eq_nil flat, List.reverse_nil, List.map_eq_nil_iff] at met
    subst met
    rw [check, run_bind_of_ok counted]
    -- nothing is left to visit, so the limit of nesting plays no part
    cases source.limit.toNat <;> rfl

/-- The tokens of a text that has no lexical error. -/
def tokensOf (text : String) : List Token := (tokenize [] text.toList).toOption.getD []

/-- A bracket that a macro leaves open, blamed where the macro is called, and a program whose loops
come from a macro. -/
theorem check_of_parse_macros :
    (∃ e after, ((Source.ofText [] [] 1).parse (tokensOf "$open = + [\n[-] open")).run {} =
        .error e after ∧
      ((Source.ofText [] [] 1).check (tokensOf "$open = + [\n[-] open")).run {} =
        .error e after) ∧
    ∃ p after, ((Source.ofText [] [] 1).parse
        (tokensOf "$clear(n) = n [-]\nclear(>) [clear(<)]")).run {} = .ok p after ∧
      p.calls = [] ∧ p.loops = 3 ∧
      ((Source.ofText [] [] 1).check
        (tokensOf "$clear(n) = n [-]\nclear(>) [clear(<)]")).run {} = .ok 3 after := by
  constructor
  · have fails : (outcome (((Source.ofText [] [] 1).parse
        (tokensOf "$open = + [\n[-] open")).run {})).toOption = none := by decide +kernel
    cases parsed : ((Source.ofText [] [] 1).parse (tokensOf "$open = + [\n[-] open")).run {} with
    | ok p after => rw [parsed] at fails; cases fails
    | error e after => exact ⟨e, after, rfl, (check_of_parse _ _ _).1 e after parsed⟩
  · have reads : (outcome (((Source.ofText [] [] 1).parse
        (tokensOf "$clear(n) = n [-]\nclear(>) [clear(<)]")).run {})).toOption.map
          (fun p => (p.calls, p.loops)) = some ([], 3) := by decide +kernel
    cases parsed : ((Source.ofText [] [] 1).parse
        (tokensOf "$clear(n) = n [-]\nclear(>) [clear(<)]")).run {} with
    | error e after => rw [parsed] at reads; cases reads
    | ok p after =>
      rw [parsed] at reads
      obtain ⟨flat, loops⟩ := Prod.mk.inj (Option.some.inj reads)
      exact ⟨p, after, rfl, flat, loops, loops ▸ (check_of_parse _ _ _).2 p after parsed flat⟩

end Source
end TapeLang
