import TapeLang.Proofs.Expansion.Again
import TapeLang.Proofs.Machine.Growth

/-! Compiled calls. A call keeps the body that it was compiled to first. Compiling it anew gives the
same instructions as long as nothing was declared under the name of an instruction that the body
is spelled with; a body that declares something itself cannot be compiled anew. -/
namespace TapeLang

/-- A text of word characters that spells an instruction is its long name. -/
theorem Command.eq_name_of_ofText? {text : Text} {command : Command}
    (found : ofText? text = some command) (word : text.all Text.isWord) :
    text = command.name.toList := by
  have spelled := List.find?_some found
  rcases (Bool.or_eq_true ..).mp spelled with symbol | name
  · rw [eq_of_beq symbol] at word
    cases command with
    | act action => cases action <;> exact absurd word (by decide)
    | jump | back => exact absurd word (by decide)
  · exact eq_of_beq name

theorem Item.isName_of_spells {items : List Item} {ops : List Operation}
    (spelled : List.Forall₂ LoopBinder.Spells items ops) {word : Text}
    (member : word ∈ items.filterMap instructionWord?) :
    ∃ command : Command, word = command.name.toList := by
  induction spelled with
  | nil => cases member
  | @cons item op items ops one _ ih =>
    cases item with
    | call => exact ih member
    | plain text place =>
      by_cases isWord : text.all Text.isWord = true
      · rw [List.filterMap_cons_some (show (plain text place).instructionWord? = some text from
          if_pos isWord)] at member
        rcases List.mem_cons.mp member with rfl | later
        · obtain ⟨location, made⟩ := one
          simp only [instruction, Instruction.ofText] at made
          cases found : Command.ofText? word with
          | none => rw [found] at made; cases made
          | some command => exact ⟨command, Command.eq_name_of_ofText? found isWord⟩
        · exact ih later
      · rw [List.filterMap_cons_none (show (plain text place).instructionWord? = none from
          if_neg isWord)] at member
        exact ih member

namespace Dictionary

/-- The items that the body of a call expands to. -/
def bodyItems (dictionary : Dictionary) (limit : Int) (c : Call) :
    Except SourceError (List Item) :=
  match dictionary.find? c.name with
  | none => .error ⟨.undefinedCall c.name, none⟩
  | some d => do
    let (source, tokens) ← d.bodySource c.args limit
    outcome ((source.items tokens).run dictionary)

/-- The words by which the body of a call names instructions. -/
def instructionWords (dictionary : Dictionary) (limit : Int) (c : Call) : List Text :=
  match dictionary.bodyItems limit c with
  | .error _ => []
  | .ok items => items.filterMap Item.instructionWord?

variable {before after later left : Dictionary} {limit : Int} {c : Call} {p q : Program}

/-- What compiling a call comes to: its body expands to items that are bound to instructions. -/
theorem compile_eq_ok_iff :
    before.compile limit c = .ok p after ↔
      ∃ d source tokens items binder, before.find? c.name = some d ∧
        d.bodySource c.args limit = .ok (source, tokens) ∧
        Expansion.Expands source source.limit.toNat [] none tokens before items after ∧
        items.foldlM LoopBinder.consume {} = .ok binder ∧ binder.pending = [] ∧
        p = ⟨binder.instructions, after⟩ := by
  unfold compile
  cases found : before.find? c.name with
  | none => simp
  | some d =>
    dsimp only
    unfold Definition.compile
    cases made : d.bodySource c.args limit with
    | error e =>
      constructor
      · rintro ⟨⟩
      · rintro ⟨_, _, _, _, _, same, other, -⟩
        cases same
        cases made.symm.trans other
    | ok parts =>
      obtain ⟨source, tokens⟩ := parts
      dsimp only
      rw [Source.run_parse_eq_ok_iff]
      constructor
      · rintro ⟨items, binder, read⟩
        exact ⟨d, source, tokens, items, binder, rfl, made, read⟩
      · rintro ⟨_, _, _, items, binder, same, other, read⟩
        cases same
        cases made.symm.trans other
        exact ⟨items, binder, read⟩

/-- The items of a body that compiles. -/
theorem exists_bodyItems (compiled : before.compile limit c = .ok p after) :
    ∃ d source tokens items binder, before.find? c.name = some d ∧
      d.bodySource c.args limit = .ok (source, tokens) ∧
      Expansion.Expands source source.limit.toNat [] none tokens before items after ∧
      items.foldlM LoopBinder.consume {} = .ok binder ∧ binder.pending = [] ∧
      p = ⟨binder.instructions, after⟩ ∧
      before.instructionWords limit c = items.filterMap Item.instructionWord? := by
  obtain ⟨d, source, tokens, items, binder, found, made, expands, taken, closed, same⟩ :=
    compile_eq_ok_iff.mp compiled
  have listed : before.bodyItems limit c = .ok items := by
    unfold bodyItems
    rw [found]
    dsimp only
    rw [made]
    change outcome ((source.items tokens).run before) = _
    rw [Source.run_items expands]
    rfl
  exact ⟨d, source, tokens, items, binder, found, made, expands, taken, closed, same,
    by rw [instructionWords, listed]⟩

/-- A body that declared nothing compiles to the same instructions on more definitions, none of
them named as an instruction of it. -/
theorem compile_again (compiled : before.compile limit c = .ok p before)
    (extended : later.Extends before)
    (undeclared : ∀ word ∈ before.instructionWords limit c,
      before.find? word = none → later.find? word = none) :
    ∃ q, later.compile limit c = .ok q later ∧ q.instructions = p.instructions := by
  obtain ⟨d, source, tokens, items, binder, found, made, expands, taken, closed, rfl, words⟩ :=
    exists_bodyItems compiled
  rw [words] at undeclared
  have again := expands.again (.refl before) extended undeclared
  exact ⟨⟨binder.instructions, later⟩, compile_eq_ok_iff.mpr ⟨d, source, tokens, items, binder,
    find?_extends extended found, made, again, taken, closed, rfl⟩, rfl⟩

/-- The words that a body which compiles names instructions by are their long names. -/
theorem isName_of_mem_instructionWords (compiled : before.compile limit c = .ok p after)
    {word : Text} (member : word ∈ before.instructionWords limit c) :
    ∃ command : Command, word = command.name.toList := by
  obtain ⟨d, source, tokens, items, binder, -, -, -, taken, -, -, words⟩ :=
    exists_bodyItems compiled
  obtain ⟨ops, -, spelled⟩ := LoopBinder.operations_foldlM taken
  rw [words] at member
  exact Item.isName_of_spells spelled member

/-- A body that declared something does not compile any more. -/
theorem compile_ne_ok_of_declares (compiled : before.compile limit c = .ok p after)
    (declares : before ≠ after) (extended : later.Extends after) :
    later.compile limit c ≠ .ok q left := by
  intro again
  obtain ⟨d, source, tokens, items, binder, found, made, expands, -⟩ :=
    compile_eq_ok_iff.mp compiled
  obtain ⟨d', source', tokens', items', binder', found', made', expands', -⟩ :=
    compile_eq_ok_iff.mp again
  cases (find?_extends (extended.trans expands.extends) found).symm.trans found'
  cases made.symm.trans made'
  exact declares (expands.quiet_of_again expands' extended)

end Dictionary

namespace Interpreter

variable {i : Interpreter} {c : Call} {p : Program}

/-- Whatever a machine was asked before, it returns a compiled call as it is kept and changes
nothing. The body kept is what compiling the call gave on definitions that have only grown since.
Compiling it anew gives the same instructions if it declares nothing and none of its names of
instructions was declared since, and fails if it declares anything. -/
theorem compiled_after (i : Interpreter) (history : List Request) (input : List Int)
    (found : (i.after history (i.start input)).compiled.find? c = some p) :
    let m := i.after history (i.start input)
    let limit := i.setup.expansionLimit
    (i.bodyOf c.name c.args).run m = .ok p m ∧
    ∃ before : Dictionary, before.compile limit c = .ok p p.definitions ∧
      p.definitions.Extends before ∧ m.definitions.Extends p.definitions ∧
      (before = p.definitions →
        (∀ word ∈ before.instructionWords limit c, m.definitions.find? word = none) →
        ∃ q, m.definitions.compile limit c = .ok q m.definitions ∧
          q.instructions = p.instructions) ∧
      (before ≠ p.definitions → ∃ e left, m.definitions.compile limit c = .error e left) := by
  intro m limit
  have returned : (i.bodyOf c.name c.args).run m = .ok p m := by
    rw [bodyOf, EStateM.run_bind, EStateM.run_get]
    dsimp only
    rw [show m.compiled.find? ⟨c.name, c.args⟩ = some p from found]
    rfl
  obtain ⟨before, compiled, extended⟩ := i.cached_after history input c p found
  refine ⟨returned, before, compiled, Dictionary.compile_extends compiled, extended, ?_, ?_⟩
  · intro quiet undeclared
    rw [← quiet] at compiled extended
    exact Dictionary.compile_again compiled extended fun word member _ => undeclared word member
  · intro declares
    cases anew : m.definitions.compile limit c with
    | ok q left =>
      exact absurd anew (Dictionary.compile_ne_ok_of_declares compiled declares extended)
    | error e left => exact ⟨e, left, rfl⟩

/-- A machine without a program of its own. -/
def scratch : Interpreter := ⟨{ file := [] }, oneCell, {}⟩

/-- The machine behind two texts, the first of which calls a function that names an instruction. -/
def renamed (second : String) : Machine :=
  scratch.after [.evaluate 9 [] "§f = INCR\nf".toList, .evaluate 9 [] second.toList]
    (scratch.start [])

/-- The name of the instruction is declared, and compiling the call anew gives another one. -/
theorem compiled_ne_anew : ¬ ∀ (i : Interpreter) (history : List Request) (input : List Int)
    (c : Call) (p : Program),
    (i.after history (i.start input)).compiled.find? c = some p →
    ∃ q left, (i.after history (i.start input)).definitions.compile i.setup.expansionLimit c =
      .ok q left ∧ q.instructions = p.instructions := by
  intro same
  have evaluated :
      let m := renamed "$INCR = -"
      ((m.compiled.find? ⟨"f".toList, []⟩).map fun p => p.instructions.map (·.op)) =
          some #[.command (.act .increment)] ∧
        ((outcome (m.definitions.compile 64 ⟨"f".toList, []⟩)).toOption.map fun p =>
          p.instructions.map (·.op)) = some #[.command (.act .decrement)] := by
    decide +kernel
  obtain ⟨kept, anew⟩ := evaluated
  obtain ⟨p, found, ops⟩ := Option.map_eq_some_iff.mp kept
  obtain ⟨q, left, compiled, instructions⟩ := same scratch _ [] ⟨"f".toList, []⟩ p found
  have compiled : (renamed "$INCR = -").definitions.compile 64 ⟨"f".toList, []⟩ = .ok q left :=
    compiled
  rw [compiled] at anew
  have anew : q.instructions.map (·.op) = #[.command (.act .decrement)] := Option.some.inj anew
  rw [instructions, ops] at anew
  cases anew

/-- Another name is declared, and compiling the call anew gives what is kept. -/
theorem compiled_after_scratch : ∃ p q,
    (renamed "$g = -\ng").compiled.find? ⟨"f".toList, []⟩ = some p ∧
    (scratch.bodyOf "f".toList []).run (renamed "$g = -\ng") = .ok p (renamed "$g = -\ng") ∧
    (renamed "$g = -\ng").definitions.compile 64 ⟨"f".toList, []⟩ =
      .ok q (renamed "$g = -\ng").definitions ∧
    q.instructions = p.instructions := by
  have evaluated :
      let m := renamed "$g = -\ng"
      (m.compiled.find? ⟨"f".toList, []⟩).map (fun p =>
          (p.definitions.instructionWords 64 ⟨"f".toList, []⟩).all fun word =>
            decide (m.definitions.find? word = none)) = some true ∧
        (outcome (m.definitions.compile 64 ⟨"f".toList, []⟩)).toOption.isSome = true := by
    decide +kernel
  obtain ⟨kept, anew⟩ := evaluated
  obtain ⟨p, found, words⟩ := Option.map_eq_some_iff.mp kept
  obtain ⟨returned, before, compiled, -, -, quiet, declares⟩ :=
    compiled_after scratch _ [] (c := ⟨"f".toList, []⟩) found
  by_cases same : before = p.definitions
  · have undeclared (word : Text) (member : word ∈ before.instructionWords 64 ⟨"f".toList, []⟩) :
        (renamed "$g = -\ng").definitions.find? word = none := by
      rw [same] at member
      exact of_decide_eq_true (List.all_eq_true.mp words word member)
    obtain ⟨q, again, instructions⟩ := quiet same undeclared
    exact ⟨p, q, found, returned, again, instructions⟩
  · obtain ⟨e, left, refused⟩ := declares same
    have refused : (renamed "$g = -\ng").definitions.compile 64 ⟨"f".toList, []⟩ =
      .error e left := refused
    rw [refused] at anew
    cases anew

end Interpreter
end TapeLang
