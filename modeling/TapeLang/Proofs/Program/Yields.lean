import TapeLang.Proofs.Expansion.Leeway
import TapeLang.Proofs.Program.Joined
import TapeLang.Proofs.Token.Lines

/-! What a text yields: the operations that it gives behind some definitions, and the definitions
that it leaves, places aside. Texts in a row yield one after another, and a text that reads as a
program yields its operations. -/
namespace TapeLang

theorem Dictionary.Alike.symm {a b : Dictionary} (alike : a.Alike b) : b.Alike a :=
  alike_iff.mpr (alike_iff.mp alike).symm

/-- A token that stands nowhere. -/
def Token.ofSpelling (s : TokenKind × Text) : Token := ⟨s.1, s.2, 0, 0⟩

theorem Token.map_spelling_ofSpelling (spelled : List (TokenKind × Text)) :
    (spelled.map ofSpelling).map spelling = spelled := by
  rw [List.map_map]
  exact List.map_id spelled

theorem Token.unended_ofSpelling {spelled : List (TokenKind × Text)}
    (unended : ∀ s ∈ spelled, s.1 ≠ .endOfText) :
    ∀ t ∈ spelled.map ofSpelling, t.kind ≠ .endOfText := by
  intro t member
  obtain ⟨s, listed, rfl⟩ := List.mem_map.mp member
  exact unended s listed

namespace Expansion

/-- Behind some definitions, tokens that are spelled like this give these operations and leave
these definitions, places aside. -/
def Yields (budget : Nat) (spelled : List (TokenKind × Text)) (before : Dictionary)
    (ops : List Operation) (after : Dictionary) : Prop :=
  ∃ items left,
    Expands ⟨[], #[], 0⟩ budget [] none (spelled.map Token.ofSpelling) before items left ∧
    List.Forall₂ LoopBinder.Spells items ops ∧ left.Alike after

variable {source : Source} {budget larger : Nat} {chain : List Text} {origin : Option Location}
variable {tokens : List Token} {before before' between after : Dictionary} {items : List Item}
variable {spelled more : List (TokenKind × Text)} {ops ops' : List Operation}

/-- What expands anywhere yields, within any larger budget. -/
theorem Expands.yields (expands : Expands source budget chain origin tokens before items after)
    (same : tokens.map Token.spelling = spelled) (spells : List.Forall₂ LoopBinder.Spells items ops)
    (le : budget ≤ larger) (alike : before.Alike before') :
    Yields larger spelled before' ops after := by
  have loose := expands.within source.limit le (List.nil_subset chain)
  obtain ⟨items', left, expands', left', spells'⟩ := loose.respelled
    ((Token.map_spelling_ofSpelling spelled).trans same.symm) ⟨[], #[], 0⟩ alike none
  exact ⟨items', left, expands', LoopBinder.spells_elsewhere spells spells', .symm left'⟩

/-- What yields expands in any source. -/
theorem Yields.exists_expands (yields : Yields budget spelled before ops after) (source : Source)
    (same : tokens.map Token.spelling = spelled) :
    ∃ items left, Expands source budget [] none tokens before items left ∧
      List.Forall₂ LoopBinder.Spells items ops ∧ left.Alike after := by
  obtain ⟨items, left, expands, spells, alike⟩ := yields
  obtain ⟨items', left', expands', alike', spells'⟩ := expands.respelled
    (same.trans (Token.map_spelling_ofSpelling spelled).symm) source (.refl before) none
  exact ⟨items', left', expands', LoopBinder.spells_elsewhere spells spells',
    (Dictionary.Alike.symm alike').trans alike⟩

theorem Yields.within (yields : Yields budget spelled before ops after) (le : budget ≤ larger) :
    Yields larger spelled before ops after := by
  obtain ⟨items, left, expands, spells, alike⟩ := yields
  exact ⟨items, left, expands.within 0 le (List.Subset.refl _), spells, alike⟩

theorem Yields.alike (yields : Yields budget spelled before ops after)
    (alike : before.Alike before') : Yields budget spelled before' ops after := by
  obtain ⟨items, left, expands, spells, same⟩ := yields
  obtain ⟨items', left', expands', spells', same'⟩ :=
    expands.yields (Token.map_spelling_ofSpelling spelled) spells (Nat.le_refl _) alike
  exact ⟨items', left', expands', spells', same'.trans same⟩

/-- Texts in a row yield one after another. -/
theorem yields_append_iff (unended : ∀ s ∈ spelled, s.1 ≠ .endOfText) :
    Yields budget (spelled ++ more) before ops after ↔
      ∃ first between second, Yields budget spelled before first between ∧
        Yields budget more between second after ∧ ops = first ++ second := by
  have unended' := Token.unended_ofSpelling unended
  constructor
  · rintro ⟨items, left, expands, spells, alike⟩
    rw [List.map_append] at expands
    obtain ⟨front, between, back, expandsFront, expandsBack, rfl⟩ :=
      (expands_append_iff unended').mp expands
    obtain ⟨first, second, rfl, spellsFront, spellsBack⟩ := exists_append_of_forall₂ spells
    exact ⟨first, between, second, ⟨front, between, expandsFront, spellsFront, .refl between⟩,
      ⟨back, left, expandsBack, spellsBack, alike⟩, rfl⟩
  · rintro ⟨first, between, second, ⟨front, middle, expandsFront, spellsFront, alike⟩, yields, rfl⟩
    obtain ⟨back, left, expandsBack, spellsBack, alike'⟩ := yields.alike alike.symm
    refine ⟨front ++ back, left, ?_, List.rel_append spellsFront spellsBack, alike'⟩
    rw [List.map_append]
    exact (expands_append_iff unended').mpr
      ⟨front, middle, back, expandsFront, expandsBack, rfl⟩

/-- The end of the text gives nothing. -/
theorem yields_ended_iff (unended : ∀ s ∈ spelled, s.1 ≠ .endOfText) :
    Yields budget (spelled ++ [(.endOfText, [])]) before ops after ↔
      Yields budget spelled before ops after := by
  have ends : (Token.ofSpelling (.endOfText, [])).kind = .endOfText := rfl
  unfold Yields
  simp only [List.map_append, List.map_singleton,
    expands_ended_iff (Token.unended_ofSpelling unended) ends]

end Expansion

namespace Program

open Expansion

variable {file file' text text' : Text} {limit limit' : Int} {p : Program}
variable {spelled : List (TokenKind × Text)} {ops : List Operation} {after : Dictionary}

/-- A text that reads as a program yields its operations and its definitions. -/
theorem exists_yields_of_ofText (read : ofText file text limit = .ok p) :
    ∃ spelled, text.ReadsAs spelled ∧
      Yields limit.toNat spelled {} p.operations p.definitions := by
  obtain ⟨tokens, lexed, parsed⟩ := ofText_eq_ok_iff.mp read
  obtain ⟨spelled, reads, same⟩ := Text.exists_readsAs lexed
  obtain ⟨items, expands, spells⟩ := Source.exists_spelled parsed
  refine ⟨spelled, reads, (yields_ended_iff reads.unended).mp ?_⟩
  exact expands.yields same spells (Nat.le_refl _) (.refl _)

/-- A text that yields the operations of a program reads as these instructions. -/
theorem exists_ofText_of_yields (read : ofText file text limit = .ok p)
    (reads : text'.ReadsAs spelled) (yields : Yields limit'.toNat spelled {} p.operations after)
    (file' : Text) : ∃ q, ofText file' text' limit' = .ok q ∧
      q.instructions.map Instruction.unplaced = p.instructions.map Instruction.unplaced ∧
      q.definitions.Alike after := by
  obtain ⟨_, _, parsed⟩ := ofText_eq_ok_iff.mp read
  obtain ⟨tokens, lexed, same⟩ := reads.exists_tokenize file'
  obtain ⟨items, left, expands, spells, alike⟩ :=
    ((yields_ended_iff reads.unended).mpr yields).exists_expands (Source.ofText file' text' limit')
      same
  obtain ⟨q, parsed', code⟩ := Source.exists_parse_of_spells parsed expands spells
  obtain rfl := Source.definitions_eq parsed'
  exact ⟨q, ofText_eq_ok_iff.mpr ⟨tokens, lexed, parsed'⟩, code, alike⟩

end Program
end TapeLang
