import TapeLang.Proofs.Inlining.Expansion
import TapeLang.Proofs.Program.Binding
import TapeLang.Proofs.Program.Tree

/-! Inlining keeps loops whole. The bodies of functions are balanced, so a program with its
calls inlined has as many open loops at every place as the program with the calls; and its
block is the block of that program with the block of a body in the place of every call. -/
namespace TapeLang

namespace LoopBinder

variable {b after : LoopBinder} {i : Instruction}

theorem openLoops_emit (emitted : b.emit i = .ok after) :
    i.op.openLoops b.pending.length = some after.pending.length := by
  obtain ⟨code, pending⟩ := b
  obtain ⟨op, partner, location⟩ := i
  cases op with
  | call => cases emitted; rfl
  | command c =>
    cases c with
    | act => cases emitted; rfl
    | jump => cases emitted; rfl
    | back =>
      cases pending with
      | nil => cases emitted
      | cons opening pending =>
        cases emitted
        rfl

theorem exists_emit {loops : Nat} (opened : i.op.openLoops b.pending.length = some loops) :
    ∃ after, b.emit i = .ok after := by
  obtain ⟨code, pending⟩ := b
  obtain ⟨op, partner, location⟩ := i
  cases op with
  | call => exact ⟨_, rfl⟩
  | command c =>
    cases c with
    | act => exact ⟨_, rfl⟩
    | jump => exact ⟨_, rfl⟩
    | back =>
      cases pending with
      | nil => cases opened
      | cons opening pending => exact ⟨_, rfl⟩

theorem openLoops_foldlM {items : List Item} {ops : List Operation}
    (spelled : List.Forall₂ Spells items ops) (taken : items.foldlM consume b = .ok after) :
    openLoops b.pending.length ops = some after.pending.length := by
  induction spelled generalizing b with
  | nil =>
    cases taken
    rfl
  | @cons item op _ _ first _ ih =>
    obtain ⟨next, one, rest⟩ := foldlM_cons_eq_ok_iff.mp taken
    obtain ⟨i, made, emitted⟩ := consume_eq_ok_iff.mp one
    obtain rfl : i.op = op := rightUnique_spells (instruction_spells made) first
    rw [openLoops_cons, openLoops_emit emitted]
    exact ih rest

theorem exists_foldlM {items : List Item} {ops : List Operation} {loops : Nat}
    (spelled : List.Forall₂ Spells items ops)
    (opened : openLoops b.pending.length ops = some loops) :
    ∃ after, items.foldlM consume b = .ok after ∧ after.pending.length = loops := by
  induction spelled generalizing b with
  | nil =>
    cases opened
    exact ⟨b, rfl, rfl⟩
  | @cons item op _ _ first _ ih =>
    obtain ⟨location, made⟩ := first
    rw [openLoops_cons] at opened
    cases one : op.openLoops b.pending.length with
    | none => rw [one] at opened; cases opened
    | some n =>
      rw [one] at opened
      obtain ⟨next, emitted⟩ := exists_emit (b := b) (i := { op, location }) one
      have same : n = next.pending.length :=
        Option.some.inj (one.symm.trans (openLoops_emit emitted))
      obtain ⟨after, rest, closed⟩ := ih (b := next) (same ▸ opened)
      exact ⟨after, foldlM_cons_eq_ok_iff.mpr
        ⟨next, consume_eq_ok_iff.mpr ⟨_, made, emitted⟩, rest⟩, closed⟩

end LoopBinder

namespace Source

variable {source : Source} {tokens : List Token} {before after : Dictionary} {p : Program}

/-- The loops of a parsed program are closed. -/
theorem openLoops_of_parse (parsed : (source.parse tokens).run before = .ok p after) :
    openLoops 0 p.operations = some 0 := by
  obtain ⟨items, binder, -, taken, closed, rfl⟩ := run_parse_eq_ok_iff.mp parsed
  obtain ⟨ops, added, spelled⟩ := LoopBinder.operations_foldlM taken
  have operations : binder.instructions.toList.map (·.op) = ops := by
    simpa [LoopBinder.operations] using added
  have opened := LoopBinder.openLoops_foldlM spelled taken
  rw [closed] at opened
  rw [Program.operations, operations]
  exact opened

/-- A source parses if it expands to operations whose loops are closed. -/
theorem exists_parse_of_openLoops {items : List Item} {ops : List Operation}
    (expands : Expansion.Expands source source.limit.toNat [] none tokens before items after)
    (spelled : List.Forall₂ LoopBinder.Spells items ops) (closed : openLoops 0 ops = some 0) :
    ∃ p, (source.parse tokens).run before = .ok p after ∧ p.operations = ops := by
  obtain ⟨binder, taken, pending⟩ :=
    LoopBinder.exists_foldlM (b := {}) spelled closed
  obtain ⟨ops', added, spelled'⟩ := LoopBinder.operations_foldlM taken
  refine ⟨⟨binder.instructions, after⟩, run_parse_eq_ok_iff.mpr
    ⟨items, binder, expands, taken, List.eq_nil_of_length_eq_zero pending, rfl⟩, ?_⟩
  rw [← LoopBinder.rightUnique_spells.forall₂ spelled' spelled]
  simpa [LoopBinder.operations] using added

end Source

theorem Inlined.openLoops_eq {dictionary : Dictionary} {limit : Int} {ops flat : List Operation}
    (inlined : Inlined dictionary limit ops flat) (loops : Nat) :
    openLoops loops ops = openLoops loops flat := by
  induction inlined generalizing loops with
  | nil => rfl
  | command _ ih =>
    rw [openLoops_cons, openLoops_cons]
    congr 1
    exact funext ih
  | call compiled _ _ ihBody ihRest =>
    obtain ⟨source, tokens, parsed⟩ := Dictionary.exists_parse compiled
    have closed := openLoops_add (Source.openLoops_of_parse parsed) loops
    rw [Nat.zero_add, ihBody] at closed
    rw [openLoops_append, closed]
    exact ihRest loops

namespace Node

mutual

/-- The operations of a tree, loops in brackets. -/
def operations : Node Call → List Operation
  | .act action => [.command (.act action)]
  | .call c => [.call c.name c.args]
  | .loop body => .command .jump :: (blockOperations body ++ [.command .back])

def blockOperations : List (Node Call) → List Operation
  | [] => []
  | node :: rest => node.operations ++ blockOperations rest

end

theorem blockOperations_append (first second : List (Node Call)) :
    blockOperations (first ++ second) = blockOperations first ++ blockOperations second := by
  induction first with
  | nil => rfl
  | cons node rest ih =>
    rw [List.cons_append, blockOperations, ih, blockOperations, List.append_assoc]

mutual

theorem foldl_read_operations (node : Node Call) (b : Builder Call) :
    node.operations.foldl (Builder.read Call.mk) b = b.add node := by
  cases node with
  | act => rfl
  | call => rfl
  | loop body =>
    rw [operations, List.foldl_cons, List.foldl_append, foldl_read_blockOperations body]
    simp [Builder.read, Builder.add]

theorem foldl_read_blockOperations (block : List (Node Call)) (b : Builder Call) :
    (blockOperations block).foldl (Builder.read Call.mk) b =
      { b with current := block.reverse ++ b.current } := by
  cases block with
  | nil => rfl
  | cons node rest =>
    rw [blockOperations, List.foldl_append, foldl_read_operations node,
      foldl_read_blockOperations rest]
    simp [Builder.add]

end

/-- A tree is what its operations are read as. -/
theorem ofOperations_blockOperations (block : List (Node Call)) :
    ofOperations Call.mk (blockOperations block) = block := by
  rw [ofOperations, foldl_read_blockOperations]
  simp

end Node

theorem Program.nodes_eq_of_operations {p : Program} {block : List (Node Call)}
    (same : p.operations = Node.blockOperations block) :
    Statement.nodes Call.mk p.block = block := by
  have read := ofOperations_eq_nodes Call.mk p
  rw [show p.instructions.toList.map (·.op) = Node.blockOperations block from same,
    Node.ofOperations_blockOperations] at read
  exact read.symm

namespace Statement

/-- The operations of a block. -/
def operations (block : List Statement) : List Operation :=
  Node.blockOperations (nodes Call.mk block)

theorem operations_act (action : Action) (location : Option Location) (rest : List Statement) :
    operations (.act action location :: rest) = .command (.act action) :: operations rest := rfl

theorem operations_call (target : Text) (args : List Text) (location : Option Location)
    (rest : List Statement) :
    operations (.call target args location :: rest) = .call target args :: operations rest := rfl

theorem operations_loop (body rest : List Statement) :
    operations (.loop body :: rest) =
      .command .jump :: (operations body ++ .command .back :: operations rest) := by
  simp [operations, nodes, node, Node.blockOperations, Node.operations]

theorem operations_append (first second : List Statement) :
    operations (first ++ second) = operations first ++ operations second := by
  rw [operations, nodes_eq_map, List.map_append, ← nodes_eq_map, ← nodes_eq_map,
    Node.blockOperations_append, operations, operations]

variable {block : List Statement} {nodes' : List (Node Call)}

theorem nodes_eq_nil (same : nodes Call.mk block = []) : block = [] := by
  rw [nodes_eq_map] at same
  exact List.map_eq_nil_iff.mp same

theorem nodes_eq_cons {first : Node Call} (same : nodes Call.mk block = first :: nodes') :
    ∃ statement rest, block = statement :: rest ∧ statement.node Call.mk = first ∧
      nodes Call.mk rest = nodes' := by
  rw [nodes_eq_map] at same
  obtain ⟨statement, rest, rfl, one, others⟩ := List.map_eq_cons_iff.mp same
  exact ⟨statement, rest, rfl, one, (nodes_eq_map rest).trans others⟩

theorem nodes_eq_append {first second : List (Node Call)}
    (same : nodes Call.mk block = first ++ second) :
    ∃ front back, block = front ++ back ∧ nodes Call.mk front = first ∧
      nodes Call.mk back = second := by
  rw [nodes_eq_map] at same
  obtain ⟨front, back, rfl, one, other⟩ := List.map_eq_append_iff.mp same
  exact ⟨front, back, rfl, (nodes_eq_map front).trans one, (nodes_eq_map back).trans other⟩

end Statement

open Statement (operations)

theorem Laid.operations {code : Array Instruction} {first stop : Nat} {block : List Statement}
    (laid : Laid code first block stop) :
    (code.toList.map (·.op)).drop first =
      Statement.operations block ++ (code.toList.map (·.op)).drop stop := by
  have at_index {j : Nat} {i : Instruction} (found : code[j]? = some i) :
      (code.toList.map (·.op)).drop j = i.op :: (code.toList.map (·.op)).drop (j + 1) := by
    have listed : (code.toList.map (·.op))[j]? = some i.op := by
      rw [List.getElem?_map, Array.getElem?_toList, found]
      rfl
    exact List.drop_eq_getElem?_toList_append.trans (by rw [listed]; rfl)
  induction laid with
  | nil => rfl
  | act found op _ ih => rw [at_index found, ih, op, Statement.operations_act, List.cons_append]
  | call found op _ ih => rw [at_index found, ih, op, Statement.operations_call, List.cons_append]
  | loop found op _ _ closing opClosing _ _ ihBody ihRest =>
    rw [at_index found, ihBody, at_index closing, ihRest, op, opClosing,
      Statement.operations_loop, List.cons_append, List.append_assoc, List.cons_append]

/-- The operations of a parsed program are those of its block. -/
theorem Source.operations_block {source : Source} {tokens : List Token}
    {before after : Dictionary} {p : Program}
    (parsed : (source.parse tokens).run before = .ok p after) :
    p.operations = operations p.block := by
  have laid := (laid_block parsed).operations
  rw [List.drop_zero, List.drop_eq_nil_of_le (by simp), List.append_nil] at laid
  exact laid

/-- `InlinedBlock dictionary limit block flat`: the block with the block of its body in the
place of every call, which is inlined itself. Places do not matter. -/
inductive InlinedBlock (dictionary : Dictionary) (limit : Int) :
    List Statement → List Statement → Prop where
  | nil : InlinedBlock dictionary limit [] []
  | act {action location location' rest flat} :
      InlinedBlock dictionary limit rest flat →
      InlinedBlock dictionary limit (.act action location :: rest) (.act action location' :: flat)
  | loop {body inner rest flat} :
      InlinedBlock dictionary limit body inner →
      InlinedBlock dictionary limit rest flat →
      InlinedBlock dictionary limit (.loop body :: rest) (.loop inner :: flat)
  | call {target args location p inner rest flat} :
      dictionary.body limit ⟨target, args⟩ = .ok p →
      InlinedBlock dictionary limit p.block inner →
      InlinedBlock dictionary limit rest flat →
      InlinedBlock dictionary limit (.call target args location :: rest) (inner ++ flat)

variable {dictionary : Dictionary} {limit : Int}

theorem InlinedBlock.congr {block flat other : List Statement}
    (inlined : InlinedBlock dictionary limit block flat)
    (same : Statement.nodes Call.mk other = Statement.nodes Call.mk flat) :
    InlinedBlock dictionary limit block other := by
  induction inlined generalizing other with
  | nil =>
    rw [Statement.nodes_eq_nil same]
    exact .nil
  | act _ ih =>
    obtain ⟨statement, rest, rfl, one, others⟩ := Statement.nodes_eq_cons same
    cases statement with
    | act =>
      cases one
      exact .act (ih others)
    | call => cases one
    | loop => cases one
  | loop _ _ ihBody ihRest =>
    obtain ⟨statement, rest, rfl, one, others⟩ := Statement.nodes_eq_cons same
    cases statement with
    | act => cases one
    | call => cases one
    | loop => exact .loop (ihBody (Node.loop.inj one)) (ihRest others)
  | call body _ _ ihBody ihRest =>
    rw [Statement.nodes_eq_map (_ ++ _), List.map_append, ← Statement.nodes_eq_map,
      ← Statement.nodes_eq_map] at same
    obtain ⟨front, back, rfl, one, others⟩ := Statement.nodes_eq_append same
    exact .call body (ihBody one) (ihRest others)

/-- The operations of the blocks around a block, each behind the bracket that closes the one
before it. -/
def enclosing (blocks : List (List Statement)) : List Operation :=
  blocks.flatMap fun block => .command .back :: operations block

theorem append_enclosing_nil (block : List Statement) :
    operations block ++ enclosing [] = operations block := List.append_nil _

theorem append_enclosing_cons (block next : List Statement) (blocks : List (List Statement)) :
    operations block ++ enclosing (next :: blocks) =
      operations block ++ .command .back :: (operations next ++ enclosing blocks) := by
  simp [enclosing]

namespace Inlined

variable {ops flat : List Operation}

/-- Inlining in a block and those around it gives blocks again. -/
theorem exists_blocks (inlined : Inlined dictionary limit ops flat)
    {block : List Statement} {blocks : List (List Statement)}
    (same : ops = operations block ++ enclosing blocks) :
    ∃ block' blocks', flat = operations block' ++ enclosing blocks' ∧
      InlinedBlock dictionary limit block block' ∧
      List.Forall₂ (InlinedBlock dictionary limit) blocks blocks' := by
  -- operations are read one at a time, so a loop's body stands in front of what its bracket
  -- leads back to: hence the blocks around, of which an opening bracket adds one
  induction inlined generalizing block blocks with
  | nil =>
    cases block with
    | nil =>
      cases blocks with
      | nil => exact ⟨[], [], rfl, .nil, .nil⟩
      | cons => cases same
    | cons statement => cases statement <;> cases same
  | @command c rest flat inlined ih =>
    cases block with
    | nil =>
      cases blocks with
      | nil => cases same
      | cons next blocks =>
        cases same
        obtain ⟨block', blocks', rfl, tree, trees⟩ := ih rfl
        exact ⟨[], block' :: blocks', rfl, .nil, .cons tree trees⟩
    | cons statement block =>
      cases statement with
      | act action =>
        cases same
        obtain ⟨block', blocks', rfl, tree, trees⟩ := ih rfl
        exact ⟨.act action none :: block', blocks', rfl, .act tree, trees⟩
      | call => cases same
      | loop body =>
        rw [Statement.operations_loop, List.cons_append, List.append_assoc, List.cons_append,
          ← append_enclosing_cons] at same
        cases same
        obtain ⟨inner, after, rfl, bodyInlined, inlined⟩ := ih rfl
        cases inlined with
        | @cons _ block' _ blocks' first others =>
          refine ⟨.loop inner :: block', blocks', ?_, .loop bodyInlined first, others⟩
          rw [append_enclosing_cons, Statement.operations_loop, List.cons_append,
            List.append_assoc, List.cons_append]
  | @call target args rest p inner flat compiled _ _ ihBody ihRest =>
    cases block with
    | nil =>
      cases blocks with
      | nil => cases same
      | cons => cases same
    | cons statement block =>
      cases statement with
      | act => cases same
      | loop => cases same
      | call target args location =>
        cases same
        -- a body closes its own loops, so its block has none around it
        obtain ⟨source, tokens, parsed⟩ := Dictionary.exists_parse compiled
        have whole := (Source.operations_block parsed).trans (append_enclosing_nil _).symm
        obtain ⟨innerBlock, none, rfl, innerInlined, nothing⟩ := ihBody whole
        cases nothing
        obtain ⟨block', blocks', rfl, inlined, others⟩ := ihRest rfl
        refine ⟨innerBlock ++ block', blocks', ?_,
          .call (Dictionary.body_of_compile compiled) innerInlined inlined, others⟩
        rw [append_enclosing_nil, Statement.operations_append, List.append_assoc]

/-- The block of a program whose operations are inlined ones is the inlined block. -/
theorem block {source : Source} {tokens : List Token} {before after : Dictionary} {p q : Program}
    (parsed : (source.parse tokens).run before = .ok p after)
    (inlined : Inlined dictionary limit p.operations q.operations) :
    InlinedBlock dictionary limit p.block q.block := by
  have whole := (Source.operations_block parsed).trans (append_enclosing_nil _).symm
  obtain ⟨flat, none, same, inlinedBlock, nothing⟩ := inlined.exists_blocks whole
  cases nothing
  rw [append_enclosing_nil] at same
  exact inlinedBlock.congr (Program.nodes_eq_of_operations same)

end Inlined

end TapeLang
