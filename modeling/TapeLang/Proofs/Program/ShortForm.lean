import TapeLang.Program.ShortForm
import TapeLang.Proofs.Expansion.Sound
import TapeLang.Proofs.Program.LoopBinder

/-! The short form reads back. Its lines are whole tokens: a declaration, a run of symbols or
a call word each. Read from a fresh dictionary they give the definitions and the bound
instructions of the program again, places aside. -/
namespace TapeLang

namespace Operation

/-- The token that an operation is written as. -/
def spelling : Operation → TokenKind × Text
  | command c => (.symbol, [c.symbol])
  | call target args => (.word, callText target args)

/-- Whether a dictionary lets a call be written and read back. -/
def IsCallable (dictionary : Dictionary) : Operation → Prop
  | command _ => True
  | call target args => ∃ d, dictionary.find? target = some d ∧ d.kind = .functionForm ∧
      IsCallName target ∧ args.length = d.params.length ∧ IsCallArguments args

theorem callText_isCallWord {target : Text} {args : List Text} (name : IsCallName target)
    (legal : IsCallArguments args) : IsCallWord (callText target args) := by
  unfold callText
  split
  · exact .name name
  · apply IsCallWord.arguments name (balanced_join legal.each)
    intro member
    rcases Text.mem_join member with separator | ⟨a, listed, inArgument⟩
    · simp at separator
    · exact legal.oneLine a listed inArgument

/-- The text of a call splits into its name and its arguments. -/
theorem splitCall?_callText {target : Text} {args : List Text} (name : IsCallName target)
    (legal : IsCallArguments args) :
    ∃ raw, splitCall? (callText target args) = some (target, raw) ∧
      argumentList (raw.getD []) = args := by
  unfold callText
  split
  · rename_i empty
    rw [List.isEmpty_iff.mp empty]
    exact ⟨none, splitCall?_name name, rfl⟩
  · exact ⟨_, splitCall?_arguments name _, argumentList_join legal.toIsArgumentList⟩

end Operation

/-- A program without calls has commands only. -/
theorem Program.exists_command {p : Program} (flat : p.calls = []) {op : Operation}
    (member : op ∈ p.instructions.toList.map (·.op)) : ∃ c, op = .command c := by
  cases op with
  | command c => exact ⟨c, rfl⟩
  | call target args =>
    have listed : Operation.call target args ∈ p.calls := List.mem_filter.mpr ⟨member, rfl⟩
    rw [flat] at listed
    cases listed

/-- The token that a definition is written as. -/
def Definition.spelling (d : Definition) : TokenKind × Text :=
  (.declaration d.kind, d.renderedHead ++ '=' :: Text.stripEnd (' ' :: d.body))

namespace Lexer

theorem lexes_commands (commands : List Command) :
    Lexes (commands.map Command.symbol) (commands.map fun c => (.symbol, [c.symbol])) := by
  have read : Lexes (commands.flatMap fun c => [c.symbol])
      (commands.flatMap fun c => [(.symbol, [c.symbol])]) := .flatMap fun c _ => .command c
  rwa [← List.map_eq_flatMap, ← List.map_eq_flatMap] at read

theorem lexes_started (commands : List Command) :
    Lexes ((if (commands.map Command.symbol).isEmpty then [] else
      [commands.map Command.symbol]).flatMap (· ++ ['\n']))
      (commands.map fun c => (.symbol, [c.symbol])) := by
  cases commands with
  | nil => exact .nil
  | cons c rest =>
    simpa using (lexes_commands (c :: rest)).append .newline

/-- The lines of the short form, behind a line of started commands. -/
theorem lexes_shortFormLines {dictionary : Dictionary} {ops : List Operation}
    (callable : ∀ op ∈ ops, op.IsCallable dictionary) (started : List Command) :
    Lexes ((shortFormLines (started.map Command.symbol) ops).flatMap (· ++ ['\n']))
      (started.map (fun c => (.symbol, [c.symbol])) ++ ops.map Operation.spelling) := by
  induction ops generalizing started with
  | nil => simpa [shortFormLines] using lexes_started started
  | cons op rest ih =>
    have tail := ih fun other member => callable other (List.mem_cons_of_mem _ member)
    cases op with
    | command c =>
      simpa [shortFormLines, Operation.spelling] using tail (started ++ [c])
    | call target args =>
      obtain ⟨-, -, -, name, -, legal⟩ := callable (.call target args) (by simp)
      have word := Lexes.callWord (Operation.callText_isCallWord name legal)
      have read := (lexes_started started).append (word.append (tail []))
      rw [shortFormLines, List.flatMap_append, List.flatMap_cons]
      exact read

theorem lexes_declarations {definitions : List Definition}
    (legal : ∀ d ∈ definitions, d.IsDeclarable) :
    Lexes ((definitions.map Definition.render).flatMap (· ++ ['\n']))
      (definitions.map Definition.spelling) := by
  have read : Lexes (definitions.flatMap fun d => d.render ++ ['\n'])
      (definitions.flatMap fun d => [d.spelling]) := by
    apply Lexes.flatMap
    intro d member
    have line := Lexes.declaration ((legal d member).not_mem_line (c := '\n') (by simp)) d.kind
    rw [(legal d member).declarationText_line] at line
    rwa [Definition.render_eq]
  rw [← List.map_eq_flatMap] at read
  rwa [List.flatMap_map]

/-- The short form is made of whole tokens. -/
theorem lexes_shortForm {p : Program} (legal : p.definitions.IsDeclarable)
    (callable : ∀ op ∈ p.instructions.toList.map (·.op), op.IsCallable p.definitions) :
    Lexes p.shortForm
      ((if p.calls.isEmpty then [] else p.definitions.toList.map Definition.spelling) ++
        (p.instructions.toList.map (·.op)).map Operation.spelling) := by
  unfold Program.shortForm
  dsimp only
  split
  · rename_i flat
    have commands : ∀ op ∈ p.instructions.toList.map (·.op), Lexes op.symbol [op.spelling] := by
      intro op member
      obtain ⟨c, rfl⟩ := Program.exists_command (List.isEmpty_iff.mp flat) member
      exact .command c
    have read := Lexes.flatMap commands
    rwa [← List.map_eq_flatMap] at read
  · rename_i calls
    have some_line : p.definitions.toList.map Definition.render ++
        shortFormLines [] (p.instructions.toList.map (·.op)) ≠ [] := by
      intro empty
      have none_left := (List.append_eq_nil_iff.mp empty).2
      have no_call : ∀ (ops : List Operation) (started : Text),
          shortFormLines started ops = [] → ops.filter Operation.isCall = [] := by
        intro ops
        induction ops with
        | nil => intro _ _; rfl
        | cons op rest ih =>
          intro started none_left
          cases op with
          | command c => exact ih _ none_left
          | call target args =>
            rw [shortFormLines] at none_left
            exact absurd (List.append_eq_nil_iff.mp none_left).2 (by simp)
      exact calls (List.isEmpty_iff.mpr (no_call _ _ none_left))
    rw [Text.join_append_singleton some_line, List.flatMap_append]
    exact (lexes_declarations legal).append (lexes_shortFormLines callable [])

end Lexer

namespace Expansion

variable {source : Source} {budget : Nat} {chain : List Text} {origin : Option Location}

/-- Tokens that spell operations expand to items that stand for them. -/
theorem expands_operations {dictionary : Dictionary} {ops : List Operation}
    (callable : ∀ op ∈ ops, op.IsCallable dictionary) {tokens : List Token}
    (spelled : tokens.map Token.spelling = ops.map Operation.spelling ++ [(.endOfText, [])]) :
    ∃ items, Expands source budget chain origin tokens dictionary items dictionary ∧
      List.Forall₂ LoopBinder.Spells items ops := by
  induction ops generalizing tokens with
  | nil =>
    obtain ⟨token, rest, rfl, last, -⟩ := List.map_eq_cons_iff.mp spelled
    exact ⟨[], .endOfText (congrArg Prod.fst last), .nil⟩
  | cons op ops ih =>
    obtain ⟨token, rest, rfl, first, tail⟩ := List.map_eq_cons_iff.mp spelled
    obtain ⟨items, expands, spells⟩ :=
      ih (fun other member => callable other (List.mem_cons_of_mem _ member)) tail
    have kind := congrArg Prod.fst first
    have value := congrArg Prod.snd first
    cases op with
    | command c =>
      refine ⟨_, .symbol kind expands, .cons ⟨some (source.place origin token), ?_⟩ spells⟩
      have value : token.value = [c.symbol] := value
      simp only [Item.instruction, Instruction.ofText, value, Command.ofText?_symbol]
    | call target args =>
      obtain ⟨d, found, form, name, arity, legal⟩ := callable (.call target args) (by simp)
      obtain ⟨raw, split, list⟩ := Operation.splitCall?_callText name legal
      have value : token.value = Operation.callText target args := value
      refine ⟨_, .call kind (value ▸ split) found form (by rw [list, arity]) expands,
        .cons ⟨some (source.place origin token), ?_⟩ spells⟩
      simp only [Item.instruction, list, Dictionary.name_of_find? found]

/-- Tokens that spell definitions declare them, up to their places. -/
theorem expands_declarations {before : Dictionary} {definitions : List Definition}
    (legal : ∀ d ∈ definitions, d.IsDeclarable)
    (distinct : (before.toList.map (·.name) ++ definitions.map (·.name)).Nodup)
    {tokens : List Token} {rest : List (TokenKind × Text)}
    (spelled : tokens.map Token.spelling = definitions.map Definition.spelling ++ rest) :
    ∃ between tail, between.toList.map Definition.unplaced =
        before.toList.map Definition.unplaced ++ definitions.map Definition.unplaced ∧
      tail.map Token.spelling = rest ∧
      ∀ items after, Expands source budget chain origin tail between items after →
        Expands source budget chain origin tokens before items after := by
  induction definitions generalizing before tokens with
  | nil => exact ⟨before, tokens, by simp, spelled, fun _ _ expands => expands⟩
  | cons d definitions ih =>
    obtain ⟨token, tokens, rfl, first, others⟩ := List.map_eq_cons_iff.mp spelled
    have kind : token.kind = .declaration d.kind := congrArg Prod.fst first
    have value : token.value = d.renderedHead ++ '=' :: Text.stripEnd (' ' :: d.body) :=
      congrArg Prod.snd first
    have read := readDeclaration_line (legal d (by simp)) (source.place origin token)
    rw [← value] at read
    have absent : before.find? d.name = none := by
      rw [Dictionary.find?_eq_none_iff]
      intro member
      rw [List.map_cons, List.nodup_append] at distinct
      exact distinct.2.2 d.name member d.name (by simp) rfl
    obtain ⟨next, declared⟩ : ∃ next,
        before.declare { d with location := some (source.place origin token) } = .ok next :=
      Dictionary.exists_declare_of_absent absent
    have added := Dictionary.toList_declare declared
    have still_distinct :
        (next.toList.map (·.name) ++ definitions.map (·.name)).Nodup := by
      simpa [added] using distinct
    obtain ⟨between, tail, same, remains, continues⟩ :=
      ih (fun e member => legal e (List.mem_cons_of_mem _ member)) still_distinct others
    refine ⟨between, tail, ?_, remains, fun items after expands =>
      .declaration kind read declared (continues items after expands)⟩
    rw [same, added]
    simp [Definition.unplaced]

end Expansion

namespace Program

variable {file text : Text} {limit : Int} {p q : Program}

/-- The definitions behind a text can be declared again and its calls be written back, where
those in force before it can. -/
theorem writable_of_parse {source : Source} {tokens : List Token} {before after : Dictionary}
    (parsed : (source.parse tokens).run before = .ok p after) (sound : ∀ t ∈ tokens, t.Sound)
    (legal : before.IsDeclarable) :
    p.definitions.IsDeclarable ∧
      ∀ op ∈ p.instructions.toList.map (·.op), op.IsCallable p.definitions := by
  obtain rfl := Source.definitions_eq parsed
  obtain ⟨items, expands, spelled⟩ := Source.exists_spelled parsed
  obtain ⟨declarable, writable⟩ := expands.sound sound legal
  refine ⟨declarable, ?_⟩
  intro op member
  cases op with
  | command c => trivial
  | call target args =>
    obtain ⟨d, place, rfl, listed⟩ := LoopBinder.exists_call_item spelled member
    obtain ⟨found, form, arity⟩ := expands.resolves _ listed
    obtain ⟨name, legal⟩ := writable _ listed
    exact ⟨d, found, form, name, arity, legal⟩

theorem ofText_sound (read : ofText file text limit = .ok p) :
    p.definitions.IsDeclarable ∧
      ∀ op ∈ p.instructions.toList.map (·.op), op.IsCallable p.definitions := by
  obtain ⟨tokens, lexed, parsed⟩ := ofText_eq_ok_iff.mp read
  exact writable_of_parse parsed (tokenize_sound lexed) Dictionary.isDeclarable_empty

theorem find?_unplaced {before after : Dictionary}
    (same : after.toList.map Definition.unplaced = before.toList.map Definition.unplaced)
    {name : Text} {d : Definition} (found : before.find? name = some d) :
    ∃ e, after.find? name = some e ∧ e.unplaced = d.unplaced := by
  have lookup (dictionary : Dictionary) : (dictionary.find? name).map Definition.unplaced =
      (dictionary.toList.map Definition.unplaced).find? (·.name == name) := by
    rw [List.find?_map]
    rfl
  have equal : (after.find? name).map Definition.unplaced = some d.unplaced := by
    rw [lookup, same, ← lookup, found, Option.map_some]
  exact Option.map_eq_some_iff.mp equal

theorem isCallable_unplaced {before after : Dictionary}
    (same : after.toList.map Definition.unplaced = before.toList.map Definition.unplaced)
    {op : Operation} (callable : op.IsCallable before) : op.IsCallable after := by
  cases op with
  | command c => trivial
  | call target args =>
    obtain ⟨d, found, form, name, arity, legal⟩ := callable
    obtain ⟨e, found', alike⟩ := find?_unplaced same found
    have kind : e.kind = d.kind := congrArg (·.kind) alike
    have params : e.params = d.params := congrArg (·.params) alike
    exact ⟨e, found', kind.trans form, name, by rw [params, arity], legal⟩

theorem render_unplaced (d : Definition) : d.unplaced.render = d.render := rfl

/-- The short form depends on operations and, where there are calls, on definitions. -/
theorem shortForm_congr
    (code : q.instructions.map Instruction.unplaced = p.instructions.map Instruction.unplaced)
    (definitions : p.calls ≠ [] →
      q.definitions.toList.map Definition.unplaced = p.definitions.toList.map Definition.unplaced) :
    q.shortForm = p.shortForm := by
  have operations : q.instructions.toList.map (·.op) = p.instructions.toList.map (·.op) := by
    have := congrArg (fun a => a.toList.map Instruction.op) code
    simpa [Instruction.unplaced, Function.comp_def] using this
  have calls : q.calls = p.calls := by rw [Program.calls, operations, Program.calls]
  unfold shortForm
  rw [calls, operations]
  dsimp only
  split
  · rfl
  · rename_i some_call
    have lines : q.definitions.toList.map Definition.render =
        p.definitions.toList.map Definition.render := by
      have := congrArg (List.map Definition.render)
        (definitions fun empty => some_call (List.isEmpty_iff.mpr empty))
      simpa [Function.comp_def, render_unplaced] using this
    rw [lines]

/-- The short form expands, within any limit, to items that stand for the instructions. Where the
program has calls, it declares the definitions, which no dictionary may hold before. -/
theorem expands_shortForm_on (declarable : p.definitions.IsDeclarable)
    (callable : ∀ op ∈ p.instructions.toList.map (·.op), op.IsCallable p.definitions)
    {base : Dictionary} (fits : p.calls = [] ∨ base = {}) (file : Text) (limit : Int) :
    ∃ tokens between items, tokenize file p.shortForm = .ok tokens ∧
      (p.calls ≠ [] → between.toList.map Definition.unplaced =
        p.definitions.toList.map Definition.unplaced) ∧
      Expansion.Expands (Source.ofText file p.shortForm limit) limit.toNat [] none tokens base
        items between ∧
      List.Forall₂ LoopBinder.Spells items (p.instructions.toList.map (·.op)) := by
  obtain ⟨tokens, lexed, spelled⟩ := (Lexer.lexes_shortForm declarable callable).tokenize file
  rw [List.append_assoc] at spelled
  by_cases flat : p.calls = []
  · -- no definition is written, and none is needed to read the symbols
    have commands : ∀ op ∈ p.instructions.toList.map (·.op), op.IsCallable base := by
      intro op member
      obtain ⟨c, rfl⟩ := exists_command flat member
      trivial
    rw [flat] at spelled
    obtain ⟨items, expands, spells⟩ := Expansion.expands_operations commands spelled
    exact ⟨tokens, _, items, lexed, fun some_call => absurd flat some_call, expands, spells⟩
  · obtain rfl := fits.resolve_left flat
    rw [if_neg (by simpa using flat)] at spelled
    have distinct : ((({} : Dictionary).toList.map (·.name)) ++
        p.definitions.toList.map (·.name)).Nodup := by
      simpa using p.definitions.nodup
    obtain ⟨between, tail, same, remains, continues⟩ :=
      Expansion.expands_declarations declarable distinct spelled
    obtain ⟨items, expands, spells⟩ := Expansion.expands_operations
      (fun op member => isCallable_unplaced same (callable op member)) remains
    exact ⟨tokens, between, items, lexed, fun _ => same, continues items between expands, spells⟩

/-- The short form expands in a fresh dictionary. -/
theorem expands_shortForm (read : ofText file text limit = .ok p) (file' : Text) (limit' : Int) :
    ∃ tokens between items, tokenize file' p.shortForm = .ok tokens ∧
      (p.calls ≠ [] → between.toList.map Definition.unplaced =
        p.definitions.toList.map Definition.unplaced) ∧
      Expansion.Expands (Source.ofText file' p.shortForm limit') limit'.toNat [] none tokens {}
        items between ∧
      List.Forall₂ LoopBinder.Spells items (p.instructions.toList.map (·.op)) :=
  expands_shortForm_on (ofText_sound read).1 (ofText_sound read).2 (.inr rfl) file' limit'

/-- Writing a program in its short form and reading that text in a fresh dictionary, within
any limit, gives the instructions back and, where the program has calls, the definitions; the
short form of what was read is the same text. -/
theorem ofText_shortForm (read : ofText file text limit = .ok p) (file' : Text) (limit' : Int) :
    ∃ q, ofText file' p.shortForm limit' = .ok q ∧
      q.instructions.map Instruction.unplaced = p.instructions.map Instruction.unplaced ∧
      (p.calls ≠ [] → q.definitions.toList.map Definition.unplaced =
        p.definitions.toList.map Definition.unplaced) ∧
      q.shortForm = p.shortForm := by
  obtain ⟨tokens, between, items, lexed, definitions, expands, spells⟩ :=
    expands_shortForm read file' limit'
  obtain ⟨_, _, parsed⟩ := ofText_eq_ok_iff.mp read
  obtain ⟨q, parsed', code⟩ := Source.exists_parse_of_spells parsed expands spells
  obtain rfl := Source.definitions_eq parsed'
  exact ⟨q, ofText_eq_ok_iff.mpr ⟨tokens, lexed, parsed'⟩, code, definitions,
    shortForm_congr code definitions⟩

/-- A macro that declares a function, and calls with nested and empty arguments. -/
theorem ofText_shortForm_declaringMacro :
    ∃ p q, ofText [] "$m = §h = +\n§g(a;b) = [a b]\nm g((+);h) +g(<; )[>h]".toList 64 = .ok p ∧
      p.calls.length = 3 ∧ p.definitions.toList.length = 3 ∧
      ofText [] p.shortForm 0 = .ok q ∧
      q.instructions.map Instruction.unplaced = p.instructions.map Instruction.unplaced := by
  have evaluated : ((ofText [] "$m = §h = +\n§g(a;b) = [a b]\nm g((+);h) +g(<; )[>h]".toList
      64).toOption.map fun p => (p.calls.length, p.definitions.toList.length)) = some (3, 3) := by
    decide +kernel
  cases read : ofText [] "$m = §h = +\n§g(a;b) = [a b]\nm g((+);h) +g(<; )[>h]".toList 64 with
  | error e => rw [read] at evaluated; cases evaluated
  | ok p =>
    rw [read] at evaluated
    obtain ⟨calls, definitions⟩ := Prod.mk.inj (Option.some.inj evaluated)
    obtain ⟨q, again, code, -⟩ := ofText_shortForm read [] 0
    exact ⟨p, q, rfl, calls, definitions, again, code⟩

end Program
end TapeLang
