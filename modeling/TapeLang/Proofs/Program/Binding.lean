import TapeLang.Proofs.Program.LoopBinder

/-! Which brackets become partners. Two brackets are partners exactly when the word between them
is balanced, whatever a binder was asked before and however often it refused. The brackets that
wait are the opening ones without a partner, and the innermost of them is the last one. -/
namespace TapeLang

section OpenLoops

/-- The loops that are open behind an operation; a closing bracket needs one. -/
def Operation.openLoops (loops : Nat) : Operation → Option Nat
  | command .jump => some (loops + 1)
  | command .back => if loops = 0 then none else some (loops - 1)
  | command (.act _) | call .. => some loops

/-- The loops that are open behind operations. -/
def openLoops (loops : Nat) (ops : List Operation) : Option Nat :=
  ops.foldlM Operation.openLoops loops

theorem openLoops_cons (loops : Nat) (op : Operation) (rest : List Operation) :
    openLoops loops (op :: rest) = (op.openLoops loops).bind fun n => openLoops n rest := rfl

theorem openLoops_append (loops : Nat) (first second : List Operation) :
    openLoops loops (first ++ second) = (openLoops loops first).bind fun n => openLoops n second :=
  List.foldlM_append

theorem openLoops_add {loops after : Nat} {ops : List Operation}
    (opened : openLoops loops ops = some after) (more : Nat) :
    openLoops (loops + more) ops = some (after + more) := by
  induction ops generalizing loops with
  | nil =>
    cases opened
    rfl
  | cons op rest ih =>
    rw [openLoops_cons] at opened ⊢
    cases one : op.openLoops loops with
    | none => rw [one] at opened; cases opened
    | some n =>
      rw [one] at opened
      have shifted : op.openLoops (loops + more) = some (n + more) := by
        cases op with
        | call => cases one; rfl
        | command c =>
          cases c with
          | act => cases one; rfl
          | jump =>
            cases one
            exact congrArg some (Nat.add_right_comm ..)
          | back =>
            simp only [Operation.openLoops] at one ⊢
            split at one
            · cases one
            · cases one
              rw [if_neg (by omega)]
              congr 1
              omega
      rw [shifted]
      exact ih opened

end OpenLoops

section Balance

theorem openLoops_concat {loops n : Nat} {ops : List Operation}
    (opened : openLoops loops ops = some n) (op : Operation) :
    openLoops loops (ops ++ [op]) = op.openLoops n := by
  rw [openLoops_append, opened, Option.bind_some, openLoops_cons]
  cases op.openLoops n <;> rfl

/-- Every bracket of a balanced word has its partner in the word. -/
def Balanced (ops : List Operation) : Prop := openLoops 0 ops = some 0

theorem Balanced.not_closed {ops : List Operation} (balanced : Balanced ops)
    (rest : List Operation) : ¬ Balanced (ops ++ .command .back :: rest) := by
  rw [Balanced, openLoops_append, balanced]
  exact nofun

/-- The operations strictly between two places. -/
def between (ops : List Operation) (i j : Nat) : List Operation := (ops.take j).drop (i + 1)

theorem between_append {ops : List Operation} {j : Nat} (inside : j ≤ ops.length)
    (first rest : List Operation) (i : Nat) :
    between (first ++ ops ++ rest) (first.length + i) (first.length + j) = between ops i j := by
  rw [between, List.append_assoc, List.take_length_add_append,
    List.take_append_of_le_length inside, Nat.add_assoc, List.drop_length_add_append, between]

theorem between_concat {ops : List Operation} {i : Nat} (op : Operation) :
    between (ops ++ [op]) i ops.length = ops.drop (i + 1) := by
  rw [between, List.take_left']
  rfl

theorem drop_eq_between {ops : List Operation} {i j : Nat} (before : i < j)
    (inside : j < ops.length) :
    ops.drop (i + 1) = between ops i j ++ ops[j] :: ops.drop (j + 1) := by
  have split : ops = ops.take j ++ ops[j] :: ops.drop (j + 1) := by
    rw [List.getElem_cons_drop, List.take_append_drop]
  conv_lhs => rw [split]
  rw [List.drop_append_of_le_length (by simp; omega), between]

/-- An opening bracket and a closing one with a balanced word between them. -/
def IsLoop (ops : List Operation) (i j : Nat) : Prop :=
  ops[i]? = some (.command .jump) ∧ ops[j]? = some (.command .back) ∧ Balanced (between ops i j)

theorem getElem?_append_within {ops : List Operation} {k : Nat} (low : k < ops.length)
    (first rest : List Operation) : (first ++ ops ++ rest)[first.length + k]? = ops[k]? := by
  rw [List.append_assoc, List.getElem?_append_right (Nat.le_add_right ..),
    Nat.add_sub_cancel_left, List.getElem?_append_left low]

theorem isLoop_append {ops : List Operation} {i j : Nat} (before : i < j)
    (inside : j < ops.length) (first rest : List Operation) :
    IsLoop (first ++ ops ++ rest) (first.length + i) (first.length + j) ↔ IsLoop ops i j := by
  rw [IsLoop, IsLoop, getElem?_append_within inside,
    getElem?_append_within (Nat.lt_trans before inside), between_append (Nat.le_of_lt inside)]

theorem isLoop_concat {ops : List Operation} {i j : Nat} (before : i < j)
    (inside : j < ops.length) (op : Operation) :
    IsLoop (ops ++ [op]) i j ↔ IsLoop ops i j := by
  simpa using isLoop_append before inside [] [op]

theorem getElem?_concat_iff {ops : List Operation} {op sought : Operation} {i : Nat} :
    (ops ++ [op])[i]? = some sought ↔
      ops[i]? = some sought ∨ i = ops.length ∧ op = sought := by
  rcases Nat.lt_trichotomy i ops.length with low | rfl | high
  · rw [List.getElem?_append_left low]
    simp [Nat.ne_of_lt low]
  · simp
  · rw [List.getElem?_eq_none (by rw [List.length_append]; exact high),
      List.getElem?_eq_none (Nat.le_of_lt high)]
    simp [Nat.ne_of_gt high]

theorem lt_length_of_found {ops : List Operation} {op : Operation} {i : Nat}
    (found : ops[i]? = some op) : i < ops.length :=
  (List.getElem?_eq_some_iff.mp found).1

end Balance

/-- What binding makes of a list of operations: the partners, and the places of the opening
brackets that wait for one, innermost first. -/
structure Binds (ops : List Operation) (partner : Nat → Option Nat) (pending : List Nat) :
    Prop where
  symmetric : ∀ i j, partner i = some j → partner j = some i
  ordered : ∀ i j, partner i = some j →
    (i < j ∧ ops[i]? = some (.command .jump) ∧ ops[j]? = some (.command .back)) ∨
      (j < i ∧ ops[j]? = some (.command .jump) ∧ ops[i]? = some (.command .back))
  partner_iff : ∀ i j, i < j → (partner i = some j ↔ IsLoop ops i j)
  closes : ∀ j, ops[j]? = some (.command .back) → ∃ i, partner j = some i
  mem_pending_iff : ∀ o, o ∈ pending ↔ ops[o]? = some (.command .jump) ∧ partner o = none
  innermostFirst : pending.Pairwise (· > ·)
  /-- Behind a waiting bracket as many are open as stand in front of it in the list. -/
  heights : ∀ k o, pending[k]? = some o → openLoops 0 (ops.drop (o + 1)) = some k

namespace Binds

variable {ops : List Operation} {partner : Nat → Option Nat} {pending : List Nat} {i j o : Nat}

theorem empty : Binds [] (fun _ => none) [] where
  symmetric := nofun
  ordered := nofun
  partner_iff _ _ _ := by simp [IsLoop]
  closes := nofun
  mem_pending_iff _ := by simp
  innermostFirst := .nil
  heights := nofun

theorem inside (binds : Binds ops partner pending) (bound : partner i = some j) :
    i < ops.length := by
  rcases binds.ordered i j bound with ⟨-, found, -⟩ | ⟨-, -, found⟩ <;>
    exact lt_length_of_found found

theorem inside_right (binds : Binds ops partner pending) (bound : partner i = some j) :
    j < ops.length :=
  binds.inside (binds.symmetric i j bound)

theorem not_bound_of_le (binds : Binds ops partner pending) (outside : ops.length ≤ i) :
    partner i = none := by
  cases bound : partner i with
  | none => rfl
  | some j => exact absurd (binds.inside bound) (by omega)

theorem pending_inside (binds : Binds ops partner pending) (member : o ∈ pending) :
    o < ops.length :=
  lt_length_of_found ((binds.mem_pending_iff o).mp member).1

theorem heights_concat (binds : Binds ops partner pending) {k : Nat}
    (found : pending[k]? = some o) (op : Operation) :
    openLoops 0 ((ops ++ [op]).drop (o + 1)) = op.openLoops k := by
  have low := binds.pending_inside (List.mem_of_getElem? found)
  rw [List.drop_append_of_le_length low, openLoops_concat (binds.heights k o found)]

theorem ordered_concat (binds : Binds ops partner pending) (op : Operation)
    (bound : partner i = some j) :
    (i < j ∧ (ops ++ [op])[i]? = some (.command .jump) ∧
        (ops ++ [op])[j]? = some (.command .back)) ∨
      (j < i ∧ (ops ++ [op])[j]? = some (.command .jump) ∧
        (ops ++ [op])[i]? = some (.command .back)) :=
  (binds.ordered i j bound).imp
    (fun ⟨before, jump, back⟩ =>
      ⟨before, getElem?_concat_iff.mpr (.inl jump), getElem?_concat_iff.mpr (.inl back)⟩)
    (fun ⟨before, jump, back⟩ =>
      ⟨before, getElem?_concat_iff.mpr (.inl jump), getElem?_concat_iff.mpr (.inl back)⟩)

/-- Whatever closes nothing leaves the partners as they are. -/
theorem added (binds : Binds ops partner pending) {op : Operation}
    (notBack : op ≠ .command .back) :
    Binds (ops ++ [op]) partner
      (if op = .command .jump then ops.length :: pending else pending) where
  symmetric := binds.symmetric
  ordered i j := binds.ordered_concat op
  partner_iff i j before := by
    rcases Nat.lt_or_ge j ops.length with low | high
    · rw [isLoop_concat before low]
      exact binds.partner_iff i j before
    · constructor
      · intro bound
        exact absurd (binds.inside_right bound) (by omega)
      · rintro ⟨-, back, -⟩
        rcases getElem?_concat_iff.mp back with back | ⟨-, rfl⟩
        · exact absurd (lt_length_of_found back) (by omega)
        · exact absurd rfl notBack
  closes j back := by
    rcases getElem?_concat_iff.mp back with back | ⟨-, rfl⟩
    · exact binds.closes j back
    · exact absurd rfl notBack
  mem_pending_iff o := by
    rw [getElem?_concat_iff, or_and_right, ← binds.mem_pending_iff]
    split
    case isTrue jump =>
      have fresh : partner ops.length = none := binds.not_bound_of_le (Nat.le_refl _)
      rw [List.mem_cons]
      constructor
      · rintro (rfl | member)
        · exact .inr ⟨⟨rfl, jump⟩, fresh⟩
        · exact .inl member
      · rintro (member | ⟨⟨rfl, -⟩, -⟩)
        · exact .inr member
        · exact .inl rfl
    case isFalse other => simp [other]
  innermostFirst := by
    split
    · exact .cons (fun o member => binds.pending_inside member) binds.innermostFirst
    · exact binds.innermostFirst
  heights k o found := by
    split at found
    case isTrue jump =>
      cases k with
      | zero =>
        obtain rfl : ops.length = o := Option.some.inj found
        rw [List.drop_of_length_le (by simp)]
        rfl
      | succ k => rw [binds.heights_concat found, jump, Operation.openLoops]
    case isFalse other =>
      rw [binds.heights_concat found]
      cases op with
      | call => rfl
      | command c =>
        cases c with
        | act => rfl
        | jump => exact absurd rfl other
        | back => exact absurd rfl notBack

end Binds

/-- The partners after the brackets at `o` and `n` have met. -/
def joined (partner : Nat → Option Nat) (o n k : Nat) : Option Nat :=
  if k = o then some n else if k = n then some o else partner k

namespace Binds

variable {ops : List Operation} {partner : Nat → Option Nat} {pending : List Nat} {i j o : Nat}

theorem joined_eq_some_iff (binds : Binds ops partner (o :: pending)) :
    joined partner o ops.length i = some j ↔
      i = o ∧ j = ops.length ∨ i = ops.length ∧ j = o ∨ partner i = some j := by
  have free := ((binds.mem_pending_iff o).mp List.mem_cons_self).2
  have low := binds.pending_inside List.mem_cons_self
  have fresh := binds.not_bound_of_le (Nat.le_refl ops.length)
  unfold joined
  split
  case isTrue same =>
    subst same
    simp [free, Nat.ne_of_lt low, eq_comm]
  case isFalse other =>
    split
    case isTrue same =>
      subst same
      simp [fresh, other, eq_comm]
    case isFalse outside => simp [other, outside]

theorem joined_eq_none_iff :
    joined partner o ops.length i = none ↔ i ≠ o ∧ i ≠ ops.length ∧ partner i = none := by
  unfold joined
  split
  · simp_all
  · split <;> simp_all

/-- The waiting bracket that a closing bracket makes a loop with is the innermost one. -/
theorem eq_innermost (binds : Binds ops partner (o :: pending))
    (jump : ops[i]? = some (.command .jump)) (balanced : Balanced (ops.drop (i + 1))) :
    i = o := by
  cases bound : partner i with
  | none =>
    have waits := (binds.mem_pending_iff i).mpr ⟨jump, bound⟩
    obtain ⟨k, found⟩ := List.getElem?_of_mem waits
    have height := binds.heights k i found
    obtain rfl : 0 = k := Option.some.inj (balanced.symm.trans height)
    exact (Option.some.inj found).symm
  | some j =>
    -- its own closing bracket would close nothing in the word behind it
    rcases binds.ordered i j bound with ⟨before, -, back⟩ | ⟨-, -, back⟩
    · obtain ⟨low, closing⟩ := List.getElem?_eq_some_iff.mp back
      rw [drop_eq_between before low, closing] at balanced
      exact absurd balanced
        (((binds.partner_iff i j before).mp bound).2.2.not_closed _)
    · cases jump.symm.trans back

/-- A closing bracket becomes the partner of the innermost bracket that waits. -/
theorem closed (binds : Binds ops partner (o :: pending)) :
    Binds (ops ++ [.command .back]) (joined partner o ops.length) pending := by
  have low := binds.pending_inside List.mem_cons_self
  obtain ⟨jump, free⟩ := (binds.mem_pending_iff o).mp List.mem_cons_self
  have opening : (ops ++ [.command .back])[o]? = some (.command .jump) :=
    getElem?_concat_iff.mpr (.inl jump)
  have closing : (ops ++ [.command .back])[ops.length]? = some (.command .back) :=
    getElem?_concat_iff.mpr (.inr ⟨rfl, rfl⟩)
  refine {
    symmetric := fun i j => ?symmetric
    ordered := fun i j => ?ordered
    partner_iff := fun i j before => ?partner
    closes := fun j back => ?closes
    mem_pending_iff := fun k => ?pending
    innermostFirst := (List.pairwise_cons.mp binds.innermostFirst).2
    heights := fun k i found => ?heights }
  case symmetric =>
    simp only [binds.joined_eq_some_iff]
    rintro (⟨rfl, rfl⟩ | ⟨rfl, rfl⟩ | bound)
    · exact .inr (.inl ⟨rfl, rfl⟩)
    · exact .inl ⟨rfl, rfl⟩
    · exact .inr (.inr (binds.symmetric i j bound))
  case ordered =>
    rw [binds.joined_eq_some_iff]
    rintro (⟨rfl, rfl⟩ | ⟨rfl, rfl⟩ | bound)
    · exact .inl ⟨low, opening, closing⟩
    · exact .inr ⟨low, opening, closing⟩
    · exact binds.ordered_concat _ bound
  case partner =>
    rw [binds.joined_eq_some_iff]
    rcases Nat.lt_or_ge j ops.length with inside | high
    · rw [isLoop_concat before inside, ← binds.partner_iff i j before]
      constructor
      · rintro (⟨-, rfl⟩ | ⟨rfl, -⟩ | bound)
        · omega
        · omega
        · exact bound
      · exact fun bound => .inr (.inr bound)
    · constructor
      · rintro (⟨rfl, rfl⟩ | ⟨rfl, rfl⟩ | bound)
        · refine ⟨opening, closing, ?_⟩
          rw [between_concat]
          exact binds.heights 0 _ rfl
        · omega
        · exact absurd (binds.inside_right bound) (by omega)
      · rintro ⟨jump, back, balanced⟩
        obtain rfl : j = ops.length := by
          have := lt_length_of_found back
          rw [List.length_append, List.length_singleton] at this
          omega
        rw [between_concat] at balanced
        rcases getElem?_concat_iff.mp jump with jump | ⟨-, ⟨⟩⟩
        exact .inl ⟨binds.eq_innermost jump balanced, rfl⟩
  case closes =>
    simp only [binds.joined_eq_some_iff]
    rcases getElem?_concat_iff.mp back with back | ⟨rfl, -⟩
    · obtain ⟨i, bound⟩ := binds.closes j back
      exact ⟨i, .inr (.inr bound)⟩
    · exact ⟨o, .inr (.inl ⟨rfl, rfl⟩)⟩
  case pending =>
    have later := (List.pairwise_cons.mp binds.innermostFirst).1
    rw [joined_eq_none_iff]
    constructor
    · intro member
      obtain ⟨jump, free⟩ := (binds.mem_pending_iff k).mp (List.mem_cons_of_mem _ member)
      have := later k member
      exact ⟨getElem?_concat_iff.mpr (.inl jump), by omega, by omega, free⟩
    · rintro ⟨jump, other, -, free⟩
      rcases getElem?_concat_iff.mp jump with jump | ⟨-, ⟨⟩⟩
      rcases List.mem_cons.mp ((binds.mem_pending_iff k).mpr ⟨jump, free⟩) with rfl | member
      · exact absurd rfl other
      · exact member
  case heights =>
    rw [binds.heights_concat (k := k + 1) (by simpa using found)]
    rfl

/-- The part of a list that is bound in itself is bound alike in the whole. -/
theorem partner_append {first rest : List Operation} {whole : Nat → Option Nat}
    {open' : List Nat} (binds : Binds ops partner [])
    (bindsWhole : Binds (first ++ ops ++ rest) whole open') {k : Nat} (low : k < ops.length) :
    whole (first.length + k) = (partner k).map (first.length + ·) := by
  have found := getElem?_append_within low first rest
  have carried {i j : Nat} (before : i < j) (bound : partner i = some j) :
      whole (first.length + i) = some (first.length + j) := by
    rw [bindsWhole.partner_iff _ _ (by omega),
      isLoop_append before (binds.inside_right bound)]
    exact (binds.partner_iff i j before).mp bound
  cases bound : partner k with
  | some j =>
    rcases binds.ordered k j bound with ⟨before, -, -⟩ | ⟨before, -, -⟩
    · exact carried before bound
    · exact bindsWhole.symmetric _ _ (carried before (binds.symmetric k j bound))
  | none =>
    cases boundWhole : whole (first.length + k) with
    | none => rfl
    | some j =>
      -- a bracket of the part has its partner in the part
      rcases bindsWhole.ordered _ _ boundWhole with ⟨-, jump, -⟩ | ⟨-, -, back⟩
      · rw [found] at jump
        exact absurd ((binds.mem_pending_iff k).mpr ⟨jump, bound⟩) nofun
      · rw [found] at back
        obtain ⟨i, closed⟩ := binds.closes k back
        cases closed.symm.trans bound

end Binds

namespace LoopBinder

variable {b after : LoopBinder} {op : Operation} {location : Option Location}

/-- The partner of the instruction at an index, if it has one. -/
def partner? (b : LoopBinder) (k : Nat) : Option Nat := (b.instructions[k]?).bind (·.partner)

/-- An opening bracket that has no partner yet. -/
def IsUnbound (b : LoopBinder) (o : Nat) : Prop :=
  b.operations[o]? = some (.command .jump) ∧ b.partner? o = none

/-- What was bound so far, and what waits. -/
def Bound (b : LoopBinder) : Prop := Binds b.operations b.partner? b.pending

theorem length_operations (b : LoopBinder) : b.operations.length = b.instructions.size := by
  simp [operations]

theorem Bound.pushed (bound : b.Bound) (op : Operation) (location : Option Location)
    (pending : List Nat) :
    partner? ⟨b.instructions.push { op, location }, pending⟩ = b.partner? := by
  funext k
  unfold partner?
  rw [Array.getElem?_push]
  split
  case isTrue last =>
    have fresh := Binds.not_bound_of_le bound (Nat.le_of_eq (b.length_operations.trans last.symm))
    exact fresh.symm
  case isFalse => rfl

theorem Bound.met {code : Array Instruction} {opening : Nat} {pending : List Nat}
    (bound : Bound ⟨code, opening :: pending⟩) (location : Option Location) :
    partner? ⟨(code.modify opening (·.bind code.size)).push
        ⟨.command .back, some opening, location⟩, pending⟩ =
      joined (partner? ⟨code, opening :: pending⟩) opening code.size := by
  have low : opening < code.size := by
    simpa [operations] using Binds.pending_inside bound List.mem_cons_self
  funext k
  unfold partner? joined
  rw [Array.getElem?_push, Array.size_modify, Array.getElem?_modify]
  rcases Nat.lt_trichotomy k code.size with inside | rfl | outside
  · rw [if_neg (Nat.ne_of_lt inside), if_neg (Nat.ne_of_lt inside)]
    by_cases first : k = opening
    · subst first
      rw [if_pos rfl, if_pos rfl, Array.getElem?_eq_getElem inside]
      rfl
    · rw [if_neg (Ne.symm first), if_neg first]
  · rw [if_pos rfl, if_pos rfl, if_neg (Nat.ne_of_gt low)]
    rfl
  · have beyond : opening ≠ k := by omega
    rw [if_neg (Nat.ne_of_gt outside), if_neg beyond, if_neg beyond.symm,
      if_neg (Nat.ne_of_gt outside)]

/-- A new instruction is bound as its operation asks for. -/
theorem Bound.emit (bound : b.Bound) (emitted : b.emit { op, location } = .ok after) :
    after.Bound := by
  have operations := operations_emit emitted
  have added := @Binds.added _ _ _ bound op
  unfold Bound
  rw [operations]
  cases op with
  | call target args =>
    cases emitted
    rw [bound.pushed]
    exact added nofun
  | command c =>
    cases c with
    | act action =>
      cases emitted
      rw [bound.pushed]
      exact added nofun
    | jump =>
      cases emitted
      rw [bound.pushed, ← length_operations]
      exact added nofun
    | back =>
      obtain ⟨code, pending⟩ := b
      cases pending with
      | nil => cases emitted
      | cons opening pending =>
        cases emitted
        have closed := Binds.closed bound
        rw [length_operations, ← bound.met location] at closed
        exact closed

theorem emit_eq_error_iff {e : SourceError} :
    b.emit { op, location } = .error e ↔ op = .command .back ∧ b.pending = [] ∧
      e = ⟨.unbalancedLoop .closing, location⟩ := by
  obtain ⟨code, pending⟩ := b
  cases op with
  | call => exact ⟨nofun, nofun⟩
  | command c =>
    cases c with
    | act => exact ⟨nofun, nofun⟩
    | jump => exact ⟨nofun, nofun⟩
    | back =>
      cases pending with
      | nil => exact ⟨by rintro ⟨⟩; exact ⟨rfl, rfl, rfl⟩, by rintro ⟨-, -, rfl⟩; rfl⟩
      | cons => exact ⟨nofun, nofun⟩

theorem finish_eq_error_iff {e : SourceError} :
    b.finish = .error e ↔ ∃ o rest, b.pending = o :: rest ∧
      e = ⟨.unbalancedLoop .opening, (b.instructions[o]?).bind (·.location)⟩ := by
  unfold finish
  cases b.pending with
  | nil => exact ⟨nofun, nofun⟩
  | cons o rest =>
    constructor
    · rintro ⟨⟩
      exact ⟨o, rest, rfl, rfl⟩
    · rintro ⟨_, _, ⟨⟩, rfl⟩
      rfl

theorem Bound.pending_eq_nil_iff (bound : b.Bound) : b.pending = [] ↔ ∀ o, ¬ b.IsUnbound o := by
  rw [List.eq_nil_iff_forall_not_mem]
  exact forall_congr' fun o => not_congr (bound.mem_pending_iff o)

theorem Bound.exists_pending_iff (bound : b.Bound) {o : Nat} :
    (∃ rest, b.pending = o :: rest) ↔
      b.IsUnbound o ∧ ∀ other, b.IsUnbound other → other ≤ o := by
  have waits (k : Nat) : k ∈ b.pending ↔ b.IsUnbound k := bound.mem_pending_iff k
  have sorted := bound.innermostFirst
  simp only [← waits]
  constructor
  · rintro ⟨rest, same⟩
    rw [same] at sorted ⊢
    refine ⟨List.mem_cons_self, fun other member => ?_⟩
    rcases List.mem_cons.mp member with rfl | later
    · exact Nat.le_refl _
    · exact Nat.le_of_lt ((List.pairwise_cons.mp sorted).1 other later)
  · rintro ⟨member, last⟩
    cases stack : b.pending with
    | nil => rw [stack] at member; cases member
    | cons top rest =>
      rw [stack] at member last sorted
      rcases List.mem_cons.mp member with rfl | later
      · exact ⟨rest, rfl⟩
      · have above := (List.pairwise_cons.mp sorted).1 o later
        exact absurd (last top List.mem_cons_self) (Nat.not_le_of_lt above)

end LoopBinder

namespace LoopBinder

variable {b : LoopBinder}

/-- A use of a binder: a new instruction arrives, or the bound instructions are asked for. -/
inductive Use where
  | emit (op : Operation) (location : Option Location)
  | finish
deriving DecidableEq, Repr

/-- The binder after a use. Only an instruction that is accepted changes it. -/
def use (b : LoopBinder) : Use → LoopBinder
  | .emit op location =>
    match b.emit { op, location } with
    | .ok after => after
    | .error _ => b
  | .finish => b

/-- A binder after uses, in order. -/
def after (uses : List Use) : LoopBinder := uses.foldl use {}

/-- The instruction of a use that a binder accepts, with its place. -/
def taken (b : LoopBinder) : Use → List (Operation × Option Location)
  | .emit op location =>
    match b.emit { op, location } with
    | .ok _ => [(op, location)]
    | .error _ => []
  | .finish => []

/-- The instructions that a binder accepts in the course of uses. -/
def accepted (b : LoopBinder) : List Use → List (Operation × Option Location)
  | [] => []
  | u :: uses => b.taken u ++ (b.use u).accepted uses

theorem Bound.empty : Bound {} := Binds.empty

theorem Bound.use (bound : b.Bound) (u : Use) : (b.use u).Bound := by
  cases u with
  | finish => exact bound
  | emit op location =>
    unfold LoopBinder.use
    dsimp only
    split
    case h_1 emitted => exact bound.emit emitted
    case h_2 => exact bound

theorem Bound.foldl_use (bound : b.Bound) (uses : List Use) :
    (uses.foldl LoopBinder.use b).Bound := by
  induction uses generalizing b with
  | nil => exact bound
  | cons u rest ih => exact ih (bound.use u)

theorem placed_use (b : LoopBinder) (u : Use) :
    placedOperations (b.use u).instructions = placedOperations b.instructions ++ b.taken u := by
  cases u with
  | finish => exact (List.append_nil _).symm
  | emit op location =>
    unfold use taken
    dsimp only
    cases emitted : b.emit { op, location } with
    | error e => exact (List.append_nil _).symm
    | ok next => exact placed_emit emitted

theorem placed_foldl_use (b : LoopBinder) (uses : List Use) :
    placedOperations (uses.foldl use b).instructions =
      placedOperations b.instructions ++ b.accepted uses := by
  induction uses generalizing b with
  | nil => exact (List.append_nil _).symm
  | cons u rest ih => rw [List.foldl_cons, ih, placed_use, accepted, List.append_assoc]

/-- After any uses a binder holds the instructions that it accepted. They are bound as `Binds`
says: two brackets are partners exactly where the word between them is balanced, and what waits
are the opening brackets without a partner. A closing bracket is refused where none of these is
left, and then nothing changes; the last word is refused where one is left, and blames the last of
them. -/
theorem bound_after (uses : List Use) :
    placedOperations (after uses).instructions = accepted {} uses ∧ (after uses).Bound ∧
    (∀ op location e, (after uses).emit { op, location } = .error e ↔
      op = .command .back ∧ (∀ o, ¬ (after uses).IsUnbound o) ∧
        e = ⟨.unbalancedLoop .closing, location⟩) ∧
    (∀ op location e, (after uses).emit { op, location } = .error e →
      after (uses ++ [.emit op location]) = after uses) ∧
    ∀ e, (after uses).finish = .error e ↔ ∃ o, (after uses).IsUnbound o ∧
      (∀ other, (after uses).IsUnbound other → other ≤ o) ∧
        e = ⟨.unbalancedLoop .opening, ((after uses).instructions[o]?).bind (·.location)⟩ := by
  have bound : (after uses).Bound := Bound.empty.foldl_use uses
  refine ⟨placed_foldl_use {} uses, bound, ?_, ?_, ?_⟩
  · intro op location e
    rw [emit_eq_error_iff, bound.pending_eq_nil_iff]
  · intro op location e refused
    rw [after, List.foldl_append, List.foldl_cons, List.foldl_nil]
    change (after uses).use (.emit op location) = _
    rw [use, refused]
  · intro e
    simp only [finish_eq_error_iff, exists_and_right, bound.exists_pending_iff, and_assoc]

end LoopBinder
end TapeLang
