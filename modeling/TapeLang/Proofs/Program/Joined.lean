import TapeLang.Proofs.Expansion.Leeway
import TapeLang.Proofs.Inlining.Block
import TapeLang.Proofs.Token.Joined

/-! Reading of two texts with a line end between them. What two texts read as in turn, the joined
text reads as at once: the operations of the one and those of the other behind them, and the same
definitions, but for their places. -/
namespace TapeLang

theorem Dictionary.Alike.trans {a b c : Dictionary} (first : a.Alike b) (second : b.Alike c) :
    a.Alike c :=
  alike_iff.mpr ((alike_iff.mp first).trans (alike_iff.mp second))

/-- The program of joined tokens. -/
theorem Source.exists_parse_join {source source' : Source} {front more joined : List Token}
    {last : Token} {before between after : Dictionary} {p q : Program}
    (parsed : (source.parse (front ++ [last])).run before = .ok p between)
    (parsed' : (source'.parse more).run between = .ok q after)
    (ends : last.kind = .endOfText) (unended : ∀ t ∈ front, t.kind ≠ .endOfText)
    (spelled : joined.map Token.spelling = (front ++ more).map Token.spelling)
    (source'' : Source) (limit : source.limit = source''.limit)
    (limit' : source'.limit = source''.limit) :
    ∃ r left, (source''.parse joined).run before = .ok r left ∧
      r.operations = p.operations ++ q.operations ∧ after.Alike left := by
  obtain ⟨items, expands, spells⟩ := exists_spelled parsed
  obtain ⟨items', expands', spells'⟩ := exists_spelled parsed'
  rw [limit] at expands
  rw [limit'] at expands'
  obtain ⟨first, middle, expandsFirst, alike, same⟩ :=
    expands.respelled rfl source'' (.refl before) none
  obtain ⟨second, last', expandsSecond, alike', same'⟩ :=
    expands'.respelled rfl source'' alike none
  have expandsFront := (Expansion.expands_ended_iff unended ends).mp expandsFirst
  have expandsJoined := (Expansion.expands_append_iff unended).mpr
    ⟨first, middle, second, expandsFront, expandsSecond, rfl⟩
  obtain ⟨all, left, expandsAll, alike'', sameAll⟩ :=
    expandsJoined.respelled spelled source'' (.refl before) none
  have spellsAll : List.Forall₂ LoopBinder.Spells all (p.operations ++ q.operations) :=
    LoopBinder.spells_elsewhere (List.rel_append (LoopBinder.spells_elsewhere spells same)
      (LoopBinder.spells_elsewhere spells' same')) sameAll
  have closed : openLoops 0 (p.operations ++ q.operations) = some 0 := by
    rw [openLoops_append, openLoops_of_parse parsed, Option.bind_some, openLoops_of_parse parsed']
  obtain ⟨r, parsedAll, operations⟩ := exists_parse_of_openLoops expandsAll spellsAll closed
  exact ⟨r, left, parsedAll, operations, alike'.trans alike''⟩

theorem LoopBinder.Bound.foldlM {b after : LoopBinder} (bound : b.Bound) {items : List Item}
    (taken : items.foldlM consume b = .ok after) : after.Bound := by
  induction items generalizing b with
  | nil =>
    cases taken
    exact bound
  | cons item rest ih =>
    obtain ⟨next, one, others⟩ := foldlM_cons_eq_ok_iff.mp taken
    obtain ⟨i, made, emitted⟩ := consume_eq_ok_iff.mp one
    obtain ⟨location, unbound⟩ := instruction_spells made
    rw [Except.ok.inj (made.symm.trans unbound)] at emitted
    exact ih (bound.emit emitted) others

/-- Whether the brackets of a program are bound, and none is left. -/
def Program.IsBound (p : Program) : Prop := LoopBinder.Bound ⟨p.instructions, []⟩

theorem Source.isBound_of_parse {source : Source} {tokens : List Token}
    {before after : Dictionary} {p : Program}
    (parsed : (source.parse tokens).run before = .ok p after) : p.IsBound := by
  obtain ⟨items, binder, -, taken, closed, rfl⟩ := run_parse_eq_ok_iff.mp parsed
  have bound := LoopBinder.Bound.empty.foldlM taken
  rw [LoopBinder.Bound, closed] at bound
  exact bound

end TapeLang
