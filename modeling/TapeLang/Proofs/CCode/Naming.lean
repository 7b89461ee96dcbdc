import Mathlib.Data.List.Induction
import Mathlib.Data.List.Nodup
import TapeLang.CCode.Emission
import TapeLang.Proofs.CCode.Reader

/-! The names of C functions. Calls are named in the order in which they are met; the place in
that order is the end of the name, so no two calls share one. -/
namespace TapeLang.Emission

/-- The name that a call is given after so many others. -/
def nameAt (c : Call) (index : Nat) : Text := "bf_".toList ++ c.name ++ '_' :: Text.ofNat index

/-- The names of calls that were met in the given order. -/
def tableOf (calls : List Call) : CallTable Text :=
  calls.foldl (fun table c => table.insert c (nameAt c table.size)) {}

def labelOf (calls : List Call) : Text → List Text → Text :=
  Naming.nameOf ⟨tableOf calls, []⟩

/-- A name tells the place of its call. -/
theorem index_of_nameAt {c d : Call} {j k : Nat} (same : nameAt c j = nameAt d k) : j = k := by
  have reversed (e : Call) (n : Nat) :
      Text.cut '_' (nameAt e n).reverse =
        ((Text.ofNat n).reverse, some ("bf_".toList ++ e.name).reverse) := by
    rw [nameAt, List.reverse_append, List.reverse_cons, List.append_assoc]
    apply Text.cut_append
    intro member
    exact Nat.underscore_not_in_toDigits (List.mem_reverse.mp member)
  have digits := congrArg (fun t => (Text.cut '_' t.reverse).1) same
  rw [reversed, reversed] at digits
  exact Text.ofNat_injective (List.reverse_injective digits)

theorem isWord_of_isDigit {c : Char} (digit : c.isDigit = true) : Text.isWord c = true := by
  have decimals : ∀ n ∈ List.range' 48 10,
      CharRanges.contains CharRanges.decimals n = true := by decide +kernel
  have bounds : 48 ≤ c.toNat ∧ c.toNat ≤ 57 := by
    simpa [Char.isDigit, UInt32.le_iff_toNat_le] using digit
  have decimal : Text.isDecimal c = true :=
    decimals c.toNat (List.mem_range'_1.mpr ⟨bounds.1, by omega⟩)
  simp [Text.isWord, Text.isAlphanumeric, decimal]

/-- Names of calls of word characters are identifiers. -/
theorem isIdentifier_nameAt {c : Call} (word : ∀ ch ∈ c.name, Text.isWord ch = true) (k : Nat) :
    CCode.isIdentifier (nameAt c k) = true := by
  have digits : ∀ ch ∈ Text.ofNat k, Text.isWord ch = true := fun ch member =>
    isWord_of_isDigit (Text.isDigit_of_mem_ofNat member)
  have front : "bf_".toList.all Text.isWord = true := by decide +kernel
  have behind : Text.isWord '_' = true := by decide +kernel
  have first : (nameAt c k).head?.any (!Text.isDecimal ·) = true := by
    change (!Text.isDecimal 'b') = true
    decide +kernel
  rw [CCode.isIdentifier, first, Bool.true_and, List.all_eq_true]
  simp only [nameAt, List.forall_mem_append, List.forall_mem_cons]
  exact ⟨⟨List.all_eq_true.mp front, word⟩, behind, digits⟩

variable {calls fresh : List Call} {c d : Call}

theorem tableOf_append_singleton (calls : List Call) (c : Call) :
    tableOf (calls ++ [c]) = (tableOf calls).insert c (nameAt c (tableOf calls).size) := by
  rw [tableOf, List.foldl_append]
  rfl

theorem size_tableOf (calls : List Call) : (tableOf calls).size = calls.length := by
  induction calls using List.reverseRecOn with
  | nil => rfl
  | append_singleton calls c ih =>
    rw [tableOf_append_singleton, CallTable.size_insert, ih, List.length_append,
      List.length_singleton]

/-- A call that was met is named after its place. -/
theorem find?_tableOf (distinct : calls.Nodup) (c : Call) :
    (tableOf calls).find? c = if c ∈ calls then some (nameAt c (calls.idxOf c)) else none := by
  induction calls using List.reverseRecOn with
  | nil => rfl
  | append_singleton calls d ih =>
    rw [List.nodup_append] at distinct
    obtain ⟨distinct, -, apart⟩ := distinct
    rw [tableOf_append_singleton, CallTable.find?_insert, ih distinct, size_tableOf]
    by_cases same : c = d
    · subst same
      have absent : c ∉ calls := fun member => apart c member c (by simp) rfl
      simp [List.idxOf_append_of_notMem absent]
    · by_cases member : c ∈ calls
      · simp [same, member, List.idxOf_append_of_mem member]
      · simp [same, member]

theorem labelOf_of_mem (distinct : calls.Nodup) (member : c ∈ calls) :
    labelOf calls c.name c.args = nameAt c (calls.idxOf c) := by
  rw [labelOf, Naming.nameOf, find?_tableOf distinct, if_pos member]
  rfl

/-- Calls that are met later do not change a name. -/
theorem labelOf_append (distinct : (calls ++ fresh).Nodup) (member : c ∈ calls) :
    labelOf (calls ++ fresh) c.name c.args = labelOf calls c.name c.args := by
  have earlier := (List.nodup_append.mp distinct).1
  rw [labelOf_of_mem distinct (List.mem_append_left _ member), labelOf_of_mem earlier member,
    List.idxOf_append_of_mem member]

/-- No two calls share a name. -/
theorem eq_of_labelOf (distinct : calls.Nodup) (first : c ∈ calls) (second : d ∈ calls)
    (same : labelOf calls c.name c.args = labelOf calls d.name d.args) : c = d := by
  rw [labelOf_of_mem distinct first, labelOf_of_mem distinct second] at same
  exact (List.idxOf_inj first).mp (index_of_nameAt same)

/-- What meeting instructions does to a naming of the calls met so far. -/
structure Meets (n : Naming) (calls : List Call) (after : Naming) (fresh : List Call) : Prop where
  names : after.names = tableOf (calls ++ fresh)
  distinct : (calls ++ fresh).Nodup
  next : after.next = fresh.reverse ++ n.next

theorem Meets.refl {n : Naming} (names : n.names = tableOf calls) (distinct : calls.Nodup) :
    Meets n calls n [] :=
  ⟨by rwa [List.append_nil], by rwa [List.append_nil], rfl⟩

variable {limit : Int} {deeper : Bool} {n after : Naming}

/-- Meeting an instruction names its call, unless it has a name. -/
theorem meet_meets {i : Instruction} (names : n.names = tableOf calls) (distinct : calls.Nodup)
    (met : n.meet limit deeper i = .ok after) :
    ∃ fresh, Meets n calls after fresh ∧ (deeper = false → fresh = []) ∧
      (∀ c, i.op.call? = some c → c ∈ calls ++ fresh) ∧
      ∀ c ∈ fresh, i.op.call? = some c := by
  unfold Naming.meet at met
  cases op : i.op with
  | command c =>
    rw [op] at met
    cases met
    exact ⟨[], .refl names distinct, fun _ => rfl, nofun, nofun⟩
  | call target args =>
    rw [op] at met
    dsimp only at met
    rw [names, find?_tableOf distinct] at met
    by_cases known : ⟨target, args⟩ ∈ calls
    · rw [if_pos known] at met
      cases met
      refine ⟨[], .refl names distinct, fun _ => rfl, ?_, nofun⟩
      rintro c ⟨⟩
      exact List.mem_append_left _ known
    · rw [if_neg known] at met
      dsimp only at met
      cases deeper with
      | false => cases met
      | true =>
        cases met
        refine ⟨[⟨target, args⟩], ⟨?_, ?_, rfl⟩, nofun, ?_, ?_⟩
        · rw [tableOf_append_singleton]
          rfl
        · exact List.nodup_append.mpr ⟨distinct, List.nodup_singleton _, by
            rintro c member d (_ | ⟨_, ⟨⟩⟩) rfl
            exact known member⟩
        · rintro c ⟨⟩
          exact List.mem_append_right _ List.mem_cons_self
        · rintro c (_ | ⟨_, ⟨⟩⟩)
          rfl

/-- Meeting the instructions of a program names every call among them, each once. Where calls
may not nest any deeper, no call is new. -/
theorem meetAll_meets {p : Program} (names : n.names = tableOf calls) (distinct : calls.Nodup)
    (met : n.meetAll limit deeper p = .ok after) :
    ∃ fresh, Meets n calls after fresh ∧ (deeper = false → fresh = []) ∧
      p.callees ⊆ calls ++ fresh ∧ fresh ⊆ p.callees := by
  rw [Naming.meetAll] at met
  rw [Program.callees, List.filterMap_map]
  generalize p.instructions.toList = code at met
  induction code generalizing n calls with
  | nil =>
    cases met
    exact ⟨[], .refl names distinct, fun _ => rfl, List.nil_subset _, List.nil_subset _⟩
  | cons i code ih =>
    obtain ⟨next, one, rest⟩ := foldlM_cons_eq_ok_iff.mp met
    obtain ⟨first, step, flat, named, called⟩ := meet_meets names distinct one
    obtain ⟨others, steps, flatRest, namedRest, calledRest⟩ := ih step.names step.distinct rest
    rw [List.append_assoc] at namedRest
    refine ⟨first ++ others, ⟨?_, ?_, ?_⟩, ?_, ?_, ?_⟩
    · rw [← List.append_assoc]
      exact steps.names
    · rw [← List.append_assoc]
      exact steps.distinct
    · rw [steps.next, step.next, List.reverse_append, List.append_assoc]
    · intro flatter
      rw [flat flatter, flatRest flatter, List.nil_append]
    · intro c member
      obtain ⟨j, listed, calls⟩ := List.mem_filterMap.mp member
      rcases List.mem_cons.mp listed with rfl | later
      · rw [← List.append_assoc]
        exact List.mem_append_left _ (named c calls)
      · exact namedRest (List.mem_filterMap.mpr ⟨j, later, calls⟩)
    · intro c member
      rcases List.mem_append.mp member with new | new
      · exact List.mem_filterMap.mpr ⟨i, List.mem_cons_self, called c new⟩
      · obtain ⟨j, later, calls⟩ := List.mem_filterMap.mp (calledRest new)
        exact List.mem_filterMap.mpr ⟨j, List.mem_cons_of_mem _ later, calls⟩

end TapeLang.Emission
