import TapeLang.Text.Basic

/-! Calls of functions, and tables of what is known of them. Every call is stored with its
weight, which tells most calls apart before their texts are compared. -/
namespace TapeLang

/-- A function by its name, with the texts of its arguments. -/
structure Call where
  name : Text
  args : List Text
deriving DecidableEq, Repr

/-- The count of characters in the arguments. -/
def Call.weight (c : Call) : Nat := c.args.foldr (fun a total => a.length + total) 0

/-- What is known of a call. -/
structure CallEntry (α : Type) where
  weight : Nat
  call : Call
  value : α
deriving DecidableEq, Repr

/-- Values of calls, the latest first. -/
structure CallTable (α : Type) where
  entries : List (CallEntry α) := []
deriving DecidableEq, Repr

namespace CallTable

variable {α : Type}

def size (t : CallTable α) : Nat := t.entries.length

/-- The latest value of a call. -/
def find? (t : CallTable α) (c : Call) : Option α :=
  let weight := c.weight
  (t.entries.find? fun e => e.weight == weight && e.call == c).map (·.value)

def contains (t : CallTable α) (c : Call) : Bool := (t.find? c).isSome

def insert (t : CallTable α) (c : Call) (value : α) : CallTable α :=
  ⟨⟨c.weight, c, value⟩ :: t.entries⟩

theorem find?_empty (c : Call) : ({} : CallTable α).find? c = none := rfl

theorem find?_insert (t : CallTable α) (c d : Call) (value : α) :
    (t.insert c value).find? d = if d = c then some value else t.find? d := by
  by_cases same : d = c
  · simp [find?, insert, same]
  · simp [find?, insert, same, Ne.symm same]

theorem contains_insert (t : CallTable α) (c d : Call) (value : α) :
    (t.insert c value).contains d = (d = c || t.contains d) := by
  by_cases same : d = c <;> simp [contains, find?_insert, same]

theorem size_insert (t : CallTable α) (c : Call) (value : α) :
    (t.insert c value).size = t.size + 1 := rfl

end CallTable
end TapeLang
