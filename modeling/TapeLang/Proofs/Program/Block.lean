import TapeLang.Proofs.Program.LoopBinder

/-! Programs as blocks of statements. A block does not know indices; the instructions of a
program are laid out by it, with every bracket bound to the place of its partner. -/
namespace TapeLang

/-- A statement of a structured program, with the place that its errors name. -/
inductive Statement where
  | act (action : Action) (location : Option Location)
  | call (target : Text) (args : List Text) (location : Option Location)
  | loop (body : List Statement)

namespace Statement

/-- Blocks under construction, each newest first: the current one and those around it. -/
structure Builder where
  current : List Statement := []
  outer : List (List Statement) := []

/-- Adds one operation in its place. -/
def Builder.read (b : Builder) : Operation × Option Location → Builder
  | (.command (.act action), location) => ⟨.act action location :: b.current, b.outer⟩
  | (.call target args, location) => ⟨.call target args location :: b.current, b.outer⟩
  | (.command .jump, _) => ⟨[], b.current :: b.outer⟩
  | (.command .back, _) =>
    match b.outer with
    | [] => b
    | enclosing :: outer => ⟨.loop b.current.reverse :: enclosing, outer⟩

end Statement

/-- The statements of a program. -/
def Program.block (p : Program) : List Statement :=
  ((placedOperations p.instructions).foldl Statement.Builder.read {}).current.reverse

/-- `Laid code first block stop`: the instructions from `first` up to `stop` are those of the
block. -/
inductive Laid (code : Array Instruction) : Nat → List Statement → Nat → Prop where
  | nil {first} : Laid code first [] first
  | act {first stop rest i action} :
      code[first]? = some i → i.op = .command (.act action) →
      Laid code (first + 1) rest stop →
      Laid code first (.act action i.location :: rest) stop
  | call {first stop rest i target args} :
      code[first]? = some i → i.op = .call target args →
      Laid code (first + 1) rest stop →
      Laid code first (.call target args i.location :: rest) stop
  | loop {first last stop body rest i j} :
      code[first]? = some i → i.op = .command .jump → i.partner = some last →
      Laid code (first + 1) body last →
      code[last]? = some j → j.op = .command .back → j.partner = some first →
      Laid code (last + 1) rest stop →
      Laid code first (.loop body :: rest) stop

namespace Laid

variable {code code' : Array Instruction} {first middle stop : Nat} {block more : List Statement}

theorem le (laid : Laid code first block stop) : first ≤ stop := by
  induction laid with
  | nil => exact Nat.le_refl _
  | act _ _ _ ih => omega
  | call _ _ _ ih => omega
  | loop _ _ _ _ _ _ _ _ ihBody ihRest => omega

theorem append (laid : Laid code first block middle) (next : Laid code middle more stop) :
    Laid code first (block ++ more) stop := by
  induction laid with
  | nil => exact next
  | act found op _ ih => exact .act found op (ih next)
  | call found op _ ih => exact .call found op (ih next)
  | loop found op partner body closing opClosing partnerClosing _ _ ihRest =>
    exact .loop found op partner body closing opClosing partnerClosing (ihRest next)

/-- Only the instructions of the block matter. -/
theorem congr (laid : Laid code first block stop)
    (same : ∀ j, first ≤ j → j < stop → code'[j]? = code[j]?) : Laid code' first block stop := by
  induction laid with
  | nil => exact .nil
  | act found op rest ih =>
    have bound := rest.le
    apply Laid.act ((same _ (by omega) (by omega)).trans found) op
    apply ih
    intro j low high
    exact same j (by omega) high
  | call found op rest ih =>
    have bound := rest.le
    apply Laid.call ((same _ (by omega) (by omega)).trans found) op
    apply ih
    intro j low high
    exact same j (by omega) high
  | loop found op partner body closing opClosing partnerClosing rest ihBody ihRest =>
    have bound := rest.le
    have inside := body.le
    refine .loop ((same _ (by omega) (by omega)).trans found) op partner
      (ihBody fun j low high => ?_) ((same _ (by omega) (by omega)).trans closing) opClosing
      partnerClosing (ihRest fun j low high => ?_)
    · exact same j (by omega) (by omega)
    · exact same j (by omega) high

end Laid

/-- `Open code pending outer current stop`: up to `stop` the instructions are those of blocks
under construction, one around each open bracket and the current one behind the last. -/
inductive Open (code : Array Instruction) :
    List Nat → List (List Statement) → List Statement → Nat → Prop where
  | outermost {current stop} : Laid code 0 current.reverse stop → Open code [] [] current stop
  | inside {opening pending outer enclosing current stop i} :
      Open code pending outer enclosing opening →
      code[opening]? = some i → i.op = .command .jump →
      Laid code (opening + 1) current.reverse stop →
      Open code (opening :: pending) (enclosing :: outer) current stop

namespace Open

variable {code code' : Array Instruction} {pending : List Nat} {outer : List (List Statement)}
variable {current : List Statement} {middle stop : Nat}

theorem congr (opened : Open code pending outer current stop)
    (same : ∀ j < stop, code'[j]? = code[j]?) : Open code' pending outer current stop := by
  induction opened with
  | outermost laid => exact .outermost (laid.congr fun j _ high => same j high)
  | inside _ found op laid ih =>
    have bound := laid.le
    exact .inside (ih fun j high => same j (by omega)) ((same _ (by omega)).trans found) op
      (laid.congr fun j _ high => same j high)

theorem append (opened : Open code pending outer current middle) {block : List Statement}
    (laid : Laid code middle block stop) :
    Open code pending outer (block.reverse ++ current) stop := by
  cases opened with
  | outermost before =>
    apply Open.outermost
    rw [List.reverse_append, List.reverse_reverse]
    exact before.append laid
  | inside enclosing found op before =>
    apply Open.inside enclosing found op
    rw [List.reverse_append, List.reverse_reverse]
    exact before.append laid

end Open

namespace LoopBinder

variable {b after : LoopBinder} {i : Instruction}

/-- Each emitted instruction goes on with the blocks under construction. -/
theorem open_emit {builder : Statement.Builder}
    (opened : Open b.instructions b.pending builder.outer builder.current b.instructions.size)
    (emitted : b.emit i = .ok after) :
    Open after.instructions after.pending (builder.read (i.op, i.location)).outer
      (builder.read (i.op, i.location)).current after.instructions.size := by
  obtain ⟨code, pending⟩ := b
  obtain ⟨op, partner, location⟩ := i
  have kept {j : Nat} {i : Instruction} (inside : j < code.size) :
      (code.push i)[j]? = code[j]? := by
    rw [Array.getElem?_push_lt inside, Array.getElem?_eq_getElem inside]
  have pushed (i : Instruction) : (code.push i)[code.size]? = some i := by simp
  cases op with
  | call target args =>
    cases emitted
    rw [Array.size_push]
    exact (opened.congr fun j inside => kept inside).append (.call (pushed _) rfl .nil)
  | command c =>
    cases c with
    | act action =>
      cases emitted
      rw [Array.size_push]
      exact (opened.congr fun j inside => kept inside).append (.act (pushed _) rfl .nil)
    | jump =>
      cases emitted
      rw [Array.size_push]
      exact .inside (opened.congr fun j inside => kept inside) (pushed _) rfl .nil
    | back =>
      obtain ⟨current, outer⟩ := builder
      dsimp only at opened
      cases opened with
      | outermost => cases emitted
      | @inside opening pending outer enclosing _ _ jump before found op laid =>
        cases emitted
        have inside : opening < code.size := laid.le
        have closed (j : Nat) (other : j ≠ opening) (high : j < code.size) :
            ((code.modify opening (·.bind code.size)).push
              ((⟨.command .back, partner, location⟩ : Instruction).bind opening))[j]? =
                code[j]? := by
          rw [Array.getElem?_push_lt (by simpa using high), Array.getElem_modify,
            if_neg (Ne.symm other), Array.getElem?_eq_getElem high]
        have bound : ((code.modify opening (·.bind code.size)).push
            ((⟨.command .back, partner, location⟩ : Instruction).bind opening))[opening]? =
              some (jump.bind code.size) := by
          rw [Array.getElem?_push_lt (by simpa using inside), Array.getElem_modify, if_pos rfl]
          rw [Array.getElem?_eq_getElem inside] at found
          rw [Option.some.inj found]
        have loop : Laid ((code.modify opening (·.bind code.size)).push
            ((⟨.command .back, partner, location⟩ : Instruction).bind opening)) opening
              [.loop current.reverse] (code.size + 1) := by
          have last : ((code.modify opening (·.bind code.size)).push
              ((⟨.command .back, partner, location⟩ : Instruction).bind opening))[code.size]? =
                some ((⟨.command .back, partner, location⟩ : Instruction).bind opening) := by
            rw [Array.getElem?_push, if_pos (by simp)]
          exact .loop bound op rfl (laid.congr fun j low high => closed j (by omega) high) last
            rfl rfl .nil
        dsimp only
        rw [Array.size_push, Array.size_modify]
        exact (before.congr fun j high => closed j (by omega) (by omega)).append loop

/-- Bound instructions are laid out by the blocks that their operations make. -/
theorem open_foldlM {items : List Item} (taken : items.foldlM consume b = .ok after)
    (opened : Open b.instructions b.pending
      ((placedOperations b.instructions).foldl Statement.Builder.read {}).outer
      ((placedOperations b.instructions).foldl Statement.Builder.read {}).current
      b.instructions.size) :
    Open after.instructions after.pending
      ((placedOperations after.instructions).foldl Statement.Builder.read {}).outer
      ((placedOperations after.instructions).foldl Statement.Builder.read {}).current
      after.instructions.size := by
  induction items generalizing b with
  | nil =>
    cases taken
    exact opened
  | cons item items ih =>
    obtain ⟨next, one, rest⟩ := foldlM_cons_eq_ok_iff.mp taken
    obtain ⟨i, -, emitted⟩ := consume_eq_ok_iff.mp one
    apply ih rest
    rw [placed_emit emitted, List.foldl_append]
    exact open_emit opened emitted

end LoopBinder

/-- A program is laid out by its block. -/
theorem Source.laid_block {source : Source} {tokens : List Token} {before after : Dictionary}
    {p : Program} (parsed : (source.parse tokens).run before = .ok p after) :
    Laid p.instructions 0 p.block p.instructions.size := by
  obtain ⟨items, binder, -, taken, closed, rfl⟩ := run_parse_eq_ok_iff.mp parsed
  have opened := LoopBinder.open_foldlM taken (.outermost .nil)
  rw [closed] at opened
  unfold Program.block
  generalize (placedOperations binder.instructions).foldl Statement.Builder.read {} = builder
    at opened
  obtain ⟨current, outer⟩ := builder
  cases opened with
  | outermost laid => exact laid

end TapeLang
