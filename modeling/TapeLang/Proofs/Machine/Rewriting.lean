import TapeLang.Proofs.Machine.Forms
import TapeLang.Proofs.Machine.Handlers
import TapeLang.Proofs.Program.ShortForm

/-! Reading a program back from its short form on a machine that was set up alike. What the
preludes declare is in force on it already, and is written in the short form of a program with
calls once more. -/
namespace TapeLang

theorem Prelude.isDeclarable_load {prelude : Prelude} {limit : Int} {before after : Dictionary}
    (loaded : prelude.load limit before = .ok after) (legal : before.IsDeclarable) :
    after.IsDeclarable := by
  unfold load at loaded
  dsimp only [bind, Except.bind] at loaded
  cases lexed : tokenize (Prelude.file prelude.name) prelude.text with
  | error e => rw [lexed] at loaded; cases loaded
  | ok tokens =>
    rw [lexed] at loaded
    dsimp only at loaded
    cases parsed : ((Source.ofText (Prelude.file prelude.name) prelude.text limit).parse
      tokens).run before with
    | error e left => rw [parsed] at loaded; cases loaded
    | ok p left =>
      rw [parsed] at loaded
      cases loaded
      have written := Program.writable_of_parse parsed (tokenize_sound lexed) legal
      exact Source.definitions_eq parsed ▸ written.1

/-- What preludes declare can be declared again. -/
theorem Setup.isDeclarable_freshTable {s : Setup} {base : Dictionary}
    (read : s.freshTable = .ok base) : base.IsDeclarable := by
  have folds {preludes : List Prelude} {before after : Dictionary} (legal : before.IsDeclarable)
      (read : preludes.foldlM (fun dictionary prelude => prelude.load s.expansionLimit dictionary)
        before = .ok after) : after.IsDeclarable := by
    induction preludes generalizing before with
    | nil =>
      cases read
      exact legal
    | cons prelude rest ih =>
      obtain ⟨next, one, others⟩ := foldlM_cons_eq_ok_iff.mp read
      exact ih (Prelude.isDeclarable_load one legal) others
  exact folds Dictionary.isDeclarable_empty read

theorem Dictionary.declare_eq_error {dictionary : Dictionary} {d : Definition}
    (known : d.name ∈ dictionary.toList.map (·.name)) :
    dictionary.declare d = .error ⟨.alreadyDefined d.name, d.location⟩ := by
  unfold declare
  split
  · rfl
  · rename_i absent
    exact absurd known (find?_eq_none_iff.mp absent)

/-- A text that first declares a name in use is refused there. -/
theorem Source.parse_of_declared {source : Source} {token : Token} {dictionary : Dictionary}
    {d : Definition} {form : DefinitionKind}
    (kind : token.kind = .declaration form)
    (read : readDeclaration form token.value (source.place none token) = .ok d)
    (known : d.name ∈ dictionary.toList.map (·.name)) (tokens : List Token) :
    (source.parse (token :: tokens)).run dictionary =
      .error ⟨.alreadyDefined d.name, d.location⟩ dictionary := by
  have refused := Dictionary.declare_eq_error known
  have stopped : (source.expand LoopBinder.consume (token :: tokens)).run ⟨dictionary, {}⟩ =
      .error ⟨.alreadyDefined d.name, d.location⟩ ⟨dictionary, {}⟩ := by
    have first : (Expansion.readToken source LoopBinder.consume source.limit.toNat [] none
        token).run ⟨dictionary, {}⟩ =
          .error ⟨.alreadyDefined d.name, d.location⟩ ⟨dictionary, {}⟩ := by
      simp only [Expansion.readToken, kind]
      rw [Expansion.declare, EStateM.run_bind, EStateM.run_get]
      dsimp only
      rw [read, show (Except.ok d >>= dictionary.declare) = dictionary.declare d from rfl, refused]
      rfl
    rw [expand, Expansion.expandWithin_cons (by simp [kind]), run_bind_of_error first]
  rw [run_parse, run_consumeAll, stopped]

namespace Interpreter

variable {i j : Interpreter} {m m' u : Machine} {p : Program}

/-- Whether handlers raise depends on the tape alone. -/
theorem notify_of_tape {notice : Notice} (hooks : j.setup.services = i.setup.services)
    (same : m'.tape = m.tape) (ran : (i.notify notice).run m = .ok () u) :
    ∃ u', (j.notify notice).run m' = .ok () u' := by
  rw [run_notify] at ran ⊢
  rw [hooks, same]
  cases raised : (Handler.reactInTurn notice
      (i.setup.services.hooks.handlers notice.event) m.tape).2 with
  | some fault =>
    rw [raised] at ran
    cases ran
  | none => exact ⟨_, rfl⟩

section

variable {input : List Int} (textual : i.setup.tokens = none) (legal : i.base.IsDeclarable)
variable (read : i.parse.run (i.start input) = .ok p m)

include textual legal read

/-- What a machine reads from a text is told to its handlers, extends what its preludes declare
and can be written back. -/
theorem parsed_of_text : ∃ tokens, (i.source.parse tokens).run i.base = .ok p p.definitions ∧
    (i.notify (.programParsed p.size)).run ((i.start input).holding p) = .ok () m ∧
    p.definitions.Extends i.base ∧ p.definitions.IsDeclarable ∧
    ∀ op ∈ p.instructions.toList.map (·.op), op.IsCallable p.definitions := by
  have lexed : i.tokens = tokenize i.setup.file i.setup.source := by
    rw [Interpreter.tokens, textual]
  cases found : tokenize i.setup.file i.setup.source with
  | error e =>
    unfold parse at read
    rw [lexed, found] at read
    cases read
  | ok tokens =>
    obtain ⟨parsed, told⟩ := (run_parse_eq_ok_iff (lexed.trans found)).mp read
    obtain ⟨_, expands, -⟩ := Source.exists_spelled parsed
    exact ⟨tokens, parsed, told, expands.extends,
      Program.writable_of_parse parsed (tokenize_sound found) legal⟩

/-- Where nothing is declared again, the short form is read back. -/
theorem exists_read_shortForm (fits : p.calls = [] ∨ i.base = {}) (file : Text)
    (given : List Int) :
    let again := i.reading p.shortForm file none
    ∃ q u, again.parse.run (again.start given) = .ok q u ∧
      q.instructions.map Instruction.unplaced = p.instructions.map Instruction.unplaced := by
  intro again
  obtain ⟨tokens, parsed, told, -, declarable, callable⟩ := parsed_of_text textual legal read
  obtain ⟨tokens', between, items, lexed, -, expands, spells⟩ :=
    Program.expands_shortForm_on declarable callable fits file i.setup.expansionLimit
  obtain ⟨q, parsed', code⟩ := Source.exists_parse_of_spells parsed expands spells
  obtain rfl := Source.definitions_eq parsed'
  have size : q.size = p.size := by
    have sizes := congrArg Array.size code
    rwa [Array.size_map, Array.size_map] at sizes
  have same : ((again.start given).holding q).tape = ((i.start input).holding p).tape := rfl
  obtain ⟨u, told⟩ := notify_of_tape (j := again) rfl same told
  rw [← size] at told
  have own : again.tokens = .ok tokens' := lexed
  exact ⟨q, u, (run_parse_eq_ok_iff own).mpr ⟨parsed', told⟩, code⟩

/-- Where a prelude declares something, the short form of a program with calls declares it
again. -/
theorem shortForm_declares_again (calls : p.calls ≠ []) {d : Definition} {rest : List Definition}
    (base : i.base.toList = d :: rest) (file : Text) (given : List Int) :
    let again := i.reading p.shortForm file none
    ∃ e u, again.parse.run (again.start given) = .error (.source e) u ∧
      e.fault = .alreadyDefined d.name := by
  intro again
  obtain ⟨-, -, -, ⟨more, extended⟩, declarable, callable⟩ := parsed_of_text textual legal read
  rw [base, List.cons_append] at extended
  obtain ⟨tokens, lexed, spelled⟩ := (Lexer.lexes_shortForm declarable callable).tokenize file
  rw [if_neg (by simpa using calls), ← extended] at spelled
  obtain ⟨token, tokens, rfl, first, -⟩ := List.map_eq_cons_iff.mp spelled
  have kind : token.kind = .declaration d.kind := congrArg Prod.fst first
  have value : token.value = d.renderedHead ++ '=' :: Text.stripEnd (' ' :: d.body) :=
    congrArg Prod.snd first
  have line := readDeclaration_line (declarable d (by simp [← extended]))
    (again.source.place none token)
  rw [← value] at line
  have known : d.name ∈ again.base.toList.map (·.name) := by
    rw [show again.base = i.base from rfl, base]
    exact List.mem_cons_self
  have refused := Source.parse_of_declared kind line known tokens
  have own : again.tokens = .ok (token :: tokens) := lexed
  exact ⟨_, _, run_parse_of_error own refused, rfl⟩

end

/-- The short form of a program is read back, on a machine that was set up alike, exactly if the
program has no call or the preludes declare nothing: their first definition is the first that is
declared again. What is read back has the same instructions, places aside. -/
theorem shortForm_read_iff {s : Setup} (loaded : s.load = .ok i) (textual : s.tokens = none)
    {input : List Int} (read : i.parse.run (i.start input) = .ok p m) (file : Text)
    (given : List Int) :
    let again := i.reading p.shortForm file none
    Setup.load { s with source := p.shortForm, file, tokens := none } = .ok again ∧
    ((∃ q u, again.parse.run (again.start given) = .ok q u ∧
        q.instructions.map Instruction.unplaced = p.instructions.map Instruction.unplaced) ↔
      p.calls = [] ∨ i.base = {}) ∧
    (p.calls ≠ [] → ∀ d rest, i.base.toList = d :: rest → ∃ e u,
      again.parse.run (again.start given) = .error (.source e) u ∧
        e.fault = .alreadyDefined d.name) := by
  intro again
  obtain ⟨rfl, -, fresh⟩ := Setup.load_eq_ok_iff.mp loaded
  have legal := Setup.isDeclarable_freshTable fresh
  refine ⟨load_reading loaded p.shortForm file none, ⟨?_, ?_⟩, ?_⟩
  · rintro ⟨q, u, ok, -⟩
    by_contra both
    obtain ⟨calls, declares⟩ := not_or.mp both
    cases base : i.base.toList with
    | nil =>
      have extended : i.base.Extends {} := List.nil_prefix
      exact declares (extended.eq_of_length_le (by simp [base]))
    | cons d rest =>
      obtain ⟨e, v, failed, -⟩ :=
        shortForm_declares_again textual legal read calls base file given
      cases ok.symm.trans failed
  · exact fun fits => exists_read_shortForm textual legal read fits file given
  · intro calls d rest base
    exact shortForm_declares_again textual legal read calls base file given

/-- A machine with one prelude, for a text. -/
def doubling (source : String) : Setup where
  source := source.toList
  file := []
  services := { preludes := [⟨"e".toList, "$up = ++".toList⟩] }
  tapeSize := 1

/-- What is read where reading it succeeds. -/
theorem exists_doublingRead (source : String) {α : Type} (f : Interpreter → Program → α) {a : α}
    (evaluated : (doubling source).load.toOption.bind (fun i =>
      (outcome (i.parse.run (i.start []))).toOption.map (f i)) = some a) :
    ∃ i p m, (doubling source).load = .ok i ∧ i.parse.run (i.start []) = .ok p m ∧ f i p = a := by
  cases loaded : (doubling source).load with
  | error e =>
    rw [loaded] at evaluated
    cases evaluated
  | ok i =>
    rw [loaded] at evaluated
    cases read : i.parse.run (i.start []) with
    | error fault m => simp [read, Except.toOption, outcome] at evaluated
    | ok p m =>
      simp only [read, Except.toOption, outcome, Option.map_some, Option.bind_some,
        Option.some.injEq] at evaluated
      exact ⟨i, p, m, rfl, read, evaluated⟩

/-- The names that the prelude declares, the calls and the size of what is read. -/
def doublingFacts (i : Interpreter) (p : Program) : List Text × List Operation × Nat :=
  (i.base.toList.map (·.name), p.calls, p.size)

/-- A program that uses nothing of a prelude is not read back behind the declaration of the
prelude. -/
theorem shortForm_not_read : ¬ ∀ (s : Setup) (i : Interpreter) (input : List Int) (p : Program)
    (m : Machine), s.load = .ok i → s.tokens = none →
    i.parse.run (i.start input) = .ok p m → ∀ file given,
      let again := i.reading p.shortForm file none
      ∃ q u, again.parse.run (again.start given) = .ok q u ∧
        q.instructions.map Instruction.unplaced = p.instructions.map Instruction.unplaced := by
  intro claim
  obtain ⟨i, p, m, loaded, read, facts⟩ := exists_doublingRead "§g = +\ng"
    doublingFacts (a := (["up".toList], [.call "g".toList []], 1)) (by decide +kernel)
  obtain ⟨base, calls, -⟩ : i.base.toList.map (·.name) = ["up".toList] ∧
      p.calls = [.call "g".toList []] ∧ p.size = 1 := by
    simpa [doublingFacts] using facts
  obtain ⟨d, rest, found, -⟩ := List.map_eq_cons_iff.mp base
  obtain ⟨setup, -, fresh⟩ := Setup.load_eq_ok_iff.mp loaded
  have textual : i.setup.tokens = none := by
    rw [setup]
    rfl
  obtain ⟨e, u, failed, -⟩ := shortForm_declares_again textual
    (Setup.isDeclarable_freshTable fresh) read (by simp [calls]) found [] []
  obtain ⟨q, v, ok, -⟩ := claim _ i [] p m loaded rfl read [] []
  cases ok.symm.trans failed

/-- Symbols that a macro of the prelude stands for are read back. Behind a call, the declaration
of the macro is refused. -/
theorem shortForm_read_doubling :
    (∃ i p m q u, (doubling "up").load = .ok i ∧ i.parse.run (i.start []) = .ok p m ∧
      p.size = 2 ∧ (i.reading p.shortForm [] none).parse.run (i.start []) = .ok q u ∧
      q.instructions.map Instruction.unplaced = p.instructions.map Instruction.unplaced) ∧
    ∃ i p m e u, (doubling "§g = up\ng").load = .ok i ∧ i.parse.run (i.start []) = .ok p m ∧
      (i.reading p.shortForm [] none).parse.run (i.start []) = .error (.source e) u ∧
      e.fault = .alreadyDefined "up".toList := by
  constructor
  · obtain ⟨i, p, m, loaded, read, facts⟩ := exists_doublingRead "up" doublingFacts
      (a := (["up".toList], [], 2)) (by decide +kernel)
    obtain ⟨-, calls, size⟩ : i.base.toList.map (·.name) = ["up".toList] ∧ p.calls = [] ∧
        p.size = 2 := by
      simpa [doublingFacts] using facts
    obtain ⟨-, readBack, -⟩ := shortForm_read_iff loaded rfl read [] []
    obtain ⟨q, u, again, code⟩ := readBack.mpr (.inl calls)
    exact ⟨i, p, m, q, u, loaded, read, size, again, code⟩
  · obtain ⟨i, p, m, loaded, read, facts⟩ := exists_doublingRead "§g = up\ng"
      doublingFacts (a := (["up".toList], [.call "g".toList []], 1)) (by decide +kernel)
    obtain ⟨base, calls, -⟩ : i.base.toList.map (·.name) = ["up".toList] ∧
        p.calls = [.call "g".toList []] ∧ p.size = 1 := by
      simpa [doublingFacts] using facts
    obtain ⟨d, rest, found, name, -⟩ := List.map_eq_cons_iff.mp base
    obtain ⟨-, -, refused⟩ := shortForm_read_iff loaded rfl read [] []
    obtain ⟨e, u, failed, fault⟩ := refused (by simp [calls]) d rest found
    exact ⟨i, p, m, e, u, loaded, read, failed, name ▸ fault⟩

end Interpreter
end TapeLang
