import TapeLang.Definition

/-! The definitions in force, in the order of their declaration, one for each name. -/
namespace TapeLang

structure Dictionary where
  toList : List Definition := []
  nodup : (toList.map (·.name)).Nodup := by exact List.nodup_nil
deriving DecidableEq, Repr

namespace Dictionary

def find? (dictionary : Dictionary) (name : Text) : Option Definition :=
  dictionary.toList.find? (·.name == name)

theorem find?_eq_none_iff {dictionary : Dictionary} {name : Text} :
    dictionary.find? name = none ↔ name ∉ dictionary.toList.map (·.name) := by
  simp [find?]

theorem nodup_append (dictionary : Dictionary) {d : Definition}
    (absent : dictionary.find? d.name = none) :
    ((dictionary.toList ++ [d]).map (·.name)).Nodup := by
  have fresh := find?_eq_none_iff.mp absent
  rw [List.map_append, List.nodup_append]
  refine ⟨dictionary.nodup, by simp, ?_⟩
  intro name member other last same
  have named : name = d.name := same.trans (List.mem_singleton.mp last)
  exact fresh (named ▸ member)

/-- Adds a definition behind the others; a name in use is refused. -/
def declare (dictionary : Dictionary) (d : Definition) : Except SourceError Dictionary :=
  match absent : dictionary.find? d.name with
  | some _ => .error ⟨.alreadyDefined d.name, d.location⟩
  | none => .ok ⟨dictionary.toList ++ [d], nodup_append dictionary absent⟩

theorem toList_declare {dictionary after : Dictionary} {d : Definition}
    (declared : dictionary.declare d = .ok after) : after.toList = dictionary.toList ++ [d] := by
  unfold declare at declared
  split at declared <;> cases declared
  rfl

/-- A declaration adds its name and changes no other. -/
theorem find?_declare {dictionary after : Dictionary} {d : Definition}
    (declared : dictionary.declare d = .ok after) (name : Text) :
    after.find? name = if name = d.name then some d else dictionary.find? name := by
  have added := toList_declare declared
  unfold declare at declared
  split at declared <;> cases declared
  rename_i absent
  rw [find?, added, List.find?_append]
  by_cases same : name = d.name
  · subst same
    rw [find?] at absent
    simp [absent]
  · simp [find?, same, Ne.symm same]

end Dictionary
end TapeLang
