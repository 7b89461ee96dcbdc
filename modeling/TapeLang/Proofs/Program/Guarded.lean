import TapeLang.Proofs.Expansion.Guarded
import TapeLang.Proofs.Program.LoopBinder

/-! Procedures are macros with a guard. A text that declares procedures instead of macros reads as
the same instructions in the same places, unless a procedure is called inside of its own body. -/
namespace TapeLang

theorem Option.rel_of_map_eq {α β : Type} {f : α → β} {x y : Option α}
    (same : y.map f = x.map f) : Option.Rel (fun a b => f b = f a) x y := by
  cases x <;> cases y
  · exact .none
  · cases same
  · cases same
  · exact .some (Option.some.inj same)

/-- An instruction without the text of the line that it stands on. -/
def Instruction.unstated {ι : Type} (i : Instruction ι) : Instruction ι :=
  i.relocate (Option.map Location.unstated)

/-- Related items stand for the same instruction, up to the text of its line. -/
theorem Item.Guards.instruction {item item' : Item} (guards : item.Guards item') :
    item'.instruction.toOption.map Instruction.unstated =
      item.instruction.toOption.map Instruction.unstated := by
  cases guards with
  | @plain text place place' same =>
    unfold Item.instruction Instruction.ofText
    dsimp only
    cases Command.ofText? text with
    | none => rfl
    | some command => simp [Except.toOption, Instruction.unstated, Instruction.relocate, same]
  | call guards same =>
    simp [Item.instruction, Except.toOption, Instruction.unstated, Instruction.relocate, same,
      guards.name]

namespace LoopBinder

/-- A binder without the texts of lines. -/
def unstated (b : LoopBinder) : LoopBinder := b.relocate (Option.map Location.unstated)

theorem toOption_consume_unstated (b : LoopBinder) (item : Item) :
    (b.consume item).toOption.map unstated =
      (item.instruction.toOption.map Instruction.unstated).bind fun i =>
        (b.unstated.emit i).toOption := by
  unfold consume
  cases item.instruction with
  | error e => rfl
  | ok i => exact (toOption_emit_relocate _ b i).symm

/-- Binding takes related items alike. -/
theorem inGuard_consume :
    Expansion.InGuard (fun b c : LoopBinder => c.unstated = b.unstated) consume consume := by
  intro b c item item' guards same
  apply Option.rel_of_map_eq
  rw [toOption_consume_unstated, toOption_consume_unstated, same, guards.instruction]

end LoopBinder

/-- Programs with the same instructions in the same places, up to the texts of lines. -/
def Program.SameCode (p q : Program) : Prop :=
  q.instructions.map Instruction.unstated = p.instructions.map Instruction.unstated

theorem LoopBinder.finish_unstated {b c : LoopBinder} (same : c.unstated = b.unstated) :
    c.finish.toOption.map (Array.map Instruction.unstated) =
      b.finish.toOption.map (Array.map Instruction.unstated) :=
  (toOption_finish_relocate _ c).symm.trans
    ((congrArg (·.finish.toOption) same).trans (toOption_finish_relocate _ b))

/-- Sources whose tokens declare procedures instead of macros are parsed alike, or the guard of a
procedure stops the second one. -/
theorem Source.parse_guards (source source' : Source) (sameFile : source'.file = source.file)
    (sameLimit : source'.limit = source.limit) {tokens tokens' : List Token}
    (guards : List.Forall₂ Token.Guards tokens tokens') :
    Option.Rel Program.SameCode (outcome ((source.parse tokens).run {})).toOption
        (outcome ((source'.parse tokens').run {})).toOption ∨
      ∃ name place, outcome ((source'.parse tokens').run {}) =
        .error ⟨.recursiveProcedure name, some place⟩ := by
  have start : Expansion.TogetherOn Definition.Guards
      (fun b c : LoopBinder => c.unstated = b.unstated) ⟨{}, {}⟩ ⟨{}, {}⟩ := ⟨.nil, rfl⟩
  have expanded := Expansion.guarded_expandWithin LoopBinder.inGuard_consume sameFile start
    source.limit.toNat [] .none guards
  rw [run_parse, run_parse, run_consumeAll, run_consumeAll, expand, expand, sameLimit]
  generalize (Expansion.expandWithin source LoopBinder.consume source.limit.toNat [] none
      tokens).run ⟨{}, {}⟩ = left,
    (Expansion.expandWithin source' LoopBinder.consume source.limit.toNat [] none
      tokens').run ⟨{}, {}⟩ = right at expanded
  cases expanded with
  | stopped => exact .inr ⟨_, _, rfl⟩
  | error => exact .inl .none
  | @ok p q together =>
    have finished := Option.rel_of_map_eq (LoopBinder.finish_unstated together.2)
    dsimp only
    generalize p.consumed.finish = left, q.consumed.finish = right at finished
    cases left <;> cases right <;> cases finished
    · exact .inl .none
    · exact .inl (.some ‹_›)

namespace Program

variable {lines lines' : List Text}

theorem rel_ofText_of_guards (guards : List.Forall₂ Text.Guards lines lines') (file : Text)
    (limit : Int) :
    Option.Rel SameCode (ofText file (Text.join ['\n'] lines) limit).toOption
        (ofText file (Text.join ['\n'] lines') limit).toOption ∨
      ∃ name place, ofText file (Text.join ['\n'] lines') limit =
        .error ⟨.recursiveProcedure name, some place⟩ := by
  unfold ofText
  rcases (tokenize_guards guards file).ends with ⟨tokens, tokens', lexed, lexed', related⟩ |
    ⟨e, lexed, lexed'⟩
  · rw [lexed, lexed']
    exact Source.parse_guards (.ofText file (Text.join ['\n'] lines) limit)
      (.ofText file (Text.join ['\n'] lines') limit) rfl rfl related
  · rw [lexed, lexed']
    exact .inl .none

/-- A text that declares procedures where another one declares macros: where it reads as a program
the other one reads as the same instructions in the same places, and where the other one does it
reads so too, or fails because a procedure is called inside of its own body. -/
theorem ofText_guarded (guards : List.Forall₂ Text.Guards lines lines') (file : Text)
    (limit : Int) :
    (∀ q, ofText file (Text.join ['\n'] lines') limit = .ok q →
      ∃ p, ofText file (Text.join ['\n'] lines) limit = .ok p ∧
        q.instructions.map Instruction.unstated = p.instructions.map Instruction.unstated) ∧
    ∀ p, ofText file (Text.join ['\n'] lines) limit = .ok p →
      (∃ q, ofText file (Text.join ['\n'] lines') limit = .ok q ∧
        q.instructions.map Instruction.unstated = p.instructions.map Instruction.unstated) ∨
      ∃ name place, ofText file (Text.join ['\n'] lines') limit =
        .error ⟨.recursiveProcedure name, some place⟩ := by
  have compared := rel_ofText_of_guards guards file limit
  generalize ofText file (Text.join ['\n'] lines) limit = asMacros,
    ofText file (Text.join ['\n'] lines') limit = asProcedures at compared ⊢
  rcases compared with alike | ⟨name, place, stopped⟩
  · cases asMacros <;> cases asProcedures <;> cases alike
    · exact ⟨nofun, nofun⟩
    · rename_i p q same
      constructor
      · rintro _ ⟨⟩
        exact ⟨p, rfl, same⟩
      · rintro _ ⟨⟩
        exact .inl ⟨q, rfl, same⟩
  · rw [stopped]
    exact ⟨nofun, fun _ _ => .inr ⟨name, place, rfl⟩⟩

/-- A macro that another one calls inside of its own argument can be called so no longer once it is
a procedure, and the other one may become a procedure. -/
theorem ofText_guarded_nested :
    (∃ p q, ofText [] "$d(b) = b b\n- $e = d(d(+))\ne".toList 3 = .ok p ∧ p.size = 5 ∧
      ofText [] "$d(b) = b b\n- @e = d(d(+))\ne".toList 3 = .ok q ∧
      q.instructions.map Instruction.unstated = p.instructions.map Instruction.unstated) ∧
    ∃ name place, ofText [] "@d(b) = b b\n- $e = d(d(+))\ne".toList 3 =
      .error ⟨.recursiveProcedure name, some place⟩ := by
  have size : (ofText [] "$d(b) = b b\n- $e = d(d(+))\ne".toList 3).toOption.map Program.size =
      some 5 := by decide +kernel
  have reads : (ofText [] "$d(b) = b b\n- @e = d(d(+))\ne".toList 3).toOption.isSome := by
    decide +kernel
  have fails : (ofText [] "@d(b) = b b\n- $e = d(d(+))\ne".toList 3).toOption.isNone := by
    decide +kernel
  have joined : Text.join ['\n'] ["$d(b) = b b".toList, "- $e = d(d(+))".toList, "e".toList] =
      "$d(b) = b b\n- $e = d(d(+))\ne".toList := by decide +kernel
  have joinedInner : Text.join ['\n'] ["$d(b) = b b".toList, "- @e = d(d(+))".toList, "e".toList] =
      "$d(b) = b b\n- @e = d(d(+))\ne".toList := by decide +kernel
  have joinedOuter : Text.join ['\n'] ["@d(b) = b b".toList, "- $e = d(d(+))".toList, "e".toList] =
      "@d(b) = b b\n- $e = d(d(+))\ne".toList := by decide +kernel
  have inner : List.Forall₂ Text.Guards
      ["$d(b) = b b".toList, "- $e = d(d(+))".toList, "e".toList]
      ["$d(b) = b b".toList, "- @e = d(d(+))".toList, "e".toList] := by
    have mayStart : Lexer.MayStart "- ".toList :=
      ⟨⟨.start, ⟨1, 3⟩, [⟨.symbol, ['-'], 1, 1⟩]⟩, by decide +kernel, .inl rfl⟩
    exact .cons (.same _) (.cons (@Text.Guards.turned _ "e = d(d(+))".toList mayStart)
      (.cons (.same _) .nil))
  have outer : List.Forall₂ Text.Guards
      ["$d(b) = b b".toList, "- $e = d(d(+))".toList, "e".toList]
      ["@d(b) = b b".toList, "- $e = d(d(+))".toList, "e".toList] :=
    .cons (.declaration "d(b) = b b".toList) (.cons (.same _) (.cons (.same _) .nil))
  have procedureInner := ofText_guarded inner [] 3
  have procedureOuter := ofText_guarded outer [] 3
  rw [joined, joinedInner] at procedureInner
  rw [joined, joinedOuter] at procedureOuter
  cases read : ofText [] "$d(b) = b b\n- $e = d(d(+))\ne".toList 3 with
  | error e => rw [read] at size; cases size
  | ok p =>
    rw [read] at size
    constructor
    · cases read' : ofText [] "$d(b) = b b\n- @e = d(d(+))\ne".toList 3 with
      | error e => rw [read'] at reads; cases reads
      | ok q =>
        obtain ⟨p', again, same⟩ := procedureInner.1 q read'
        cases read.symm.trans again
        exact ⟨p, q, rfl, Option.some.inj size, rfl, same⟩
    · rcases procedureOuter.2 p read with ⟨q, read', -⟩ | stopped
      · rw [read'] at fails
        cases fails
      · exact stopped

end Program
end TapeLang
