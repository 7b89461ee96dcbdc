import TapeLang.Instruction

/-! Programs as trees: actions, calls and loops with bodies, in place of a flat list with
brackets. -/
namespace TapeLang

/-- A node whose calls carry a label. -/
inductive Node (κ : Type) where
  | act (action : Action)
  | call (target : κ)
  | loop (body : List (Node κ))
deriving Repr

namespace Node

/-- Blocks under construction, each newest first: the current one and those around it. -/
structure Builder (κ : Type) where
  current : List (Node κ) := []
  outer : List (List (Node κ)) := []

namespace Builder

variable {κ : Type}

def add (b : Builder κ) (node : Node κ) : Builder κ := { b with current := node :: b.current }

/-- Adds one operation; calls are labelled by their name and arguments. -/
def read (label : Text → List Text → κ) (b : Builder κ) : Operation → Builder κ
  | .command (.act action) => b.add (.act action)
  | .call target args => b.add (.call (label target args))
  | .command .jump => ⟨[], b.current :: b.outer⟩
  | .command .back =>
    match b.outer with
    | [] => b
    | enclosing :: outer => ⟨.loop b.current.reverse :: enclosing, outer⟩

end Builder

/-- The tree of a list of operations with balanced brackets. -/
def ofOperations {κ : Type} (label : Text → List Text → κ) (ops : List Operation) :
    List (Node κ) :=
  (ops.foldl (Builder.read label) {}).current.reverse

end Node
end TapeLang
