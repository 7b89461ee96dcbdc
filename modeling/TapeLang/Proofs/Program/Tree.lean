import TapeLang.Program.Structure
import TapeLang.Proofs.Program.Block
import TapeLang.Proofs.Program.Callees

/-! The tree of a program. Its nodes are the statements of its block without their places, and
its calls are those of its instructions. -/
namespace TapeLang

namespace Node

variable {κ : Type}

mutual

/-- The labels of the calls in a node. -/
def calls : Node κ → List κ
  | .act _ => []
  | .call target => [target]
  | .loop body => blockCalls body

def blockCalls : List (Node κ) → List κ
  | [] => []
  | node :: rest => node.calls ++ blockCalls rest

end

end Node

namespace Statement

variable {κ : Type} {label other : Text → List Text → κ}

mutual

/-- A statement without its place. -/
def node (label : Text → List Text → κ) : Statement → Node κ
  | .act action _ => .act action
  | .call target args _ => .call (label target args)
  | .loop body => .loop (nodes label body)

def nodes (label : Text → List Text → κ) : List Statement → List (Node κ)
  | [] => []
  | statement :: rest => statement.node label :: nodes label rest

end

mutual

/-- The calls in a statement. -/
def calls : Statement → List Call
  | .act .. => []
  | .call target args _ => [⟨target, args⟩]
  | .loop body => blockCalls body

def blockCalls : List Statement → List Call
  | [] => []
  | statement :: rest => statement.calls ++ blockCalls rest

end

theorem nodes_eq_map (block : List Statement) : nodes label block = block.map (node label) := by
  induction block with
  | nil => rfl
  | cons statement rest ih => rw [nodes, ih, List.map_cons]

theorem blockCalls_eq_flatMap (block : List Statement) :
    blockCalls block = block.flatMap calls := by
  induction block with
  | nil => rfl
  | cons statement rest ih => rw [blockCalls, ih, List.flatMap_cons]

mutual

/-- The calls in the node of a statement are the labels of its calls. -/
theorem calls_node (statement : Statement) :
    (statement.node label).calls = statement.calls.map fun c => label c.name c.args := by
  cases statement with
  | act => rfl
  | call => rfl
  | loop body => exact blockCalls_nodes body

theorem blockCalls_nodes (block : List Statement) :
    Node.blockCalls (nodes label block) = (blockCalls block).map fun c => label c.name c.args := by
  cases block with
  | nil => rfl
  | cons statement rest =>
    rw [nodes, Node.blockCalls, blockCalls, List.map_append, calls_node statement,
      blockCalls_nodes rest]

end

mutual

/-- Only the labels of the calls matter. -/
theorem node_congr (statement : Statement)
    (same : ∀ c ∈ statement.calls, label c.name c.args = other c.name c.args) :
    statement.node label = statement.node other := by
  cases statement with
  | act => rfl
  | call target args => exact congrArg Node.call (same ⟨target, args⟩ List.mem_cons_self)
  | loop body => exact congrArg Node.loop (nodes_congr body same)

theorem nodes_congr (block : List Statement)
    (same : ∀ c ∈ blockCalls block, label c.name c.args = other c.name c.args) :
    nodes label block = nodes other block := by
  cases block with
  | nil => rfl
  | cons statement rest =>
    have first := node_congr statement fun c member => same c (List.mem_append_left _ member)
    have others := nodes_congr rest fun c member => same c (List.mem_append_right _ member)
    rw [nodes, nodes, first, others]

end

namespace Builder

variable {b : Builder} {placed : Operation × Option Location}

/-- The trees under construction. -/
def nodes (label : Text → List Text → κ) (b : Builder) : Node.Builder κ :=
  ⟨b.current.map (node label), b.outer.map (·.map (node label))⟩

theorem nodes_read (label : Text → List Text → κ) (b : Builder)
    (placed : Operation × Option Location) :
    (b.read placed).nodes label = (b.nodes label).read label placed.1 := by
  obtain ⟨op, location⟩ := placed
  cases op with
  | call target args => rfl
  | command c =>
    cases c with
    | act action => rfl
    | jump => rfl
    | back =>
      obtain ⟨current, outer⟩ := b
      cases outer with
      | nil => rfl
      | cons enclosing outer =>
        simp [read, nodes, Node.Builder.read, node, nodes_eq_map, List.map_reverse]

theorem nodes_foldl (label : Text → List Text → κ) (ops : List (Operation × Option Location))
    (b : Builder) :
    (ops.foldl read b).nodes label =
      (ops.map Prod.fst).foldl (Node.Builder.read label) (b.nodes label) := by
  induction ops generalizing b with
  | nil => rfl
  | cons placed ops ih => rw [List.foldl_cons, ih, nodes_read, List.map_cons, List.foldl_cons]

/-- The calls under construction. -/
def calls (b : Builder) : List Call := blockCalls b.current ++ b.outer.flatMap blockCalls

theorem mem_calls_read {c : Call} (member : c ∈ (b.read placed).calls) :
    c ∈ b.calls ∨ placed.1.call? = some c := by
  obtain ⟨op, location⟩ := placed
  cases op with
  | call target args =>
    simp only [read, calls, blockCalls, Statement.calls, List.mem_append, List.mem_singleton]
      at member ⊢
    rcases member with (rfl | earlier) | outside
    · exact .inr rfl
    · exact .inl (.inl earlier)
    · exact .inl (.inr outside)
  | command command =>
    left
    cases command with
    | act action => exact member
    | jump => exact member
    | back =>
      obtain ⟨current, outer⟩ := b
      cases outer with
      | nil => exact member
      | cons enclosing outer =>
        simpa [read, calls, blockCalls, Statement.calls, blockCalls_eq_flatMap, or_assoc]
          using member

theorem mem_calls_foldl {ops : List (Operation × Option Location)} {c : Call}
    (member : c ∈ (ops.foldl read b).calls) :
    c ∈ b.calls ∨ c ∈ (ops.map Prod.fst).filterMap Operation.call? := by
  induction ops generalizing b with
  | nil => exact .inl member
  | cons placed ops ih =>
    simp only [List.map_cons, List.mem_filterMap, List.mem_cons] at ih ⊢
    rcases ih member with read | ⟨op, later, calls⟩
    · rcases mem_calls_read read with earlier | first
      · exact .inl earlier
      · exact .inr ⟨_, .inl rfl, first⟩
    · exact .inr ⟨op, .inr later, calls⟩

end Builder

end Statement

namespace Program

/-- The tree of a program is its block. -/
theorem ofOperations_eq_nodes {κ : Type} (label : Text → List Text → κ) (p : Program) :
    Node.ofOperations label (p.instructions.toList.map (·.op)) =
      Statement.nodes label p.block := by
  rw [Node.ofOperations, ← map_fst_placedOperations, block, Statement.nodes_eq_map,
    List.map_reverse]
  congr 1
  exact (congrArg (·.current) (Statement.Builder.nodes_foldl label _ {})).symm

/-- The calls in the block of a program are calls of its instructions. -/
theorem blockCalls_subset (p : Program) : Statement.blockCalls p.block ⊆ p.callees := by
  intro c member
  rw [block, Statement.blockCalls_eq_flatMap, List.mem_flatMap] at member
  obtain ⟨statement, listed, called⟩ := member
  have built : c ∈ ((placedOperations p.instructions).foldl Statement.Builder.read {}).calls := by
    rw [Statement.Builder.calls, Statement.blockCalls_eq_flatMap]
    exact List.mem_append_left _ (List.mem_flatMap.mpr ⟨statement, by simpa using listed, called⟩)
  rcases Statement.Builder.mem_calls_foldl built with none | called
  · cases none
  · rwa [map_fst_placedOperations] at called

end Program
end TapeLang
