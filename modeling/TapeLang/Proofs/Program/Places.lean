import TapeLang.Proofs.Program.ShortForm

/-! What a program is does not depend on places: neither on the file and the lines that its text
comes from, nor on where the definitions in force were declared. -/
namespace TapeLang

/-- Definitions that differ at most in the places of their declarations. -/
def Definition.Alike (d e : Definition) : Prop := d.unplaced = e.unplaced

theorem Definition.isLikeness_alike : IsLikeness Alike := ⟨fun _ => rfl, Eq.symm⟩

namespace Dictionary

/-- Dictionaries that differ at most in the places of their declarations. -/
abbrev Alike (a b : Dictionary) : Prop := Like Definition.Alike a b

theorem alike_iff {a b : Dictionary} :
    a.Alike b ↔ a.toList.map Definition.unplaced = b.toList.map Definition.unplaced := by
  rw [← List.forall₂_eq_eq_eq, List.forall₂_map_left_iff, List.forall₂_map_right_iff]
  rfl

theorem Alike.refl (a : Dictionary) : a.Alike a := alike_iff.mpr rfl

theorem Like.exists_find? {a b : Dictionary} (alike : a.Alike b) {name : Text} {d : Definition}
    (found : a.find? name = some d) : ∃ e, b.find? name = some e ∧ d.Alike e := by
  rcases alike.find? Definition.isLikeness_alike.name name with ⟨left, -⟩ | ⟨c, e, left, right, same⟩
  · cases left.symm.trans found
  · cases left.symm.trans found
    exact ⟨e, right, same⟩

end Dictionary

variable {a b : Dictionary}

/-- Binding looks at the names of functions only. -/
theorem LoopBinder.inStepOn : Expansion.InStepOn Definition.Alike Eq consume consume := by
  rintro binder _ item item' alike rfl
  have same : item'.instruction = item.instruction := by
    cases alike with
    | plain => rfl
    | call same =>
      rw [Item.instruction, Item.instruction, Definition.isLikeness_alike.name same]
  unfold consume
  rw [same]
  cases item.instruction >>= binder.emit with
  | error e => exact .error
  | ok after => exact .ok rfl

/-- Parsing on like dictionaries gives the same instructions. -/
theorem Source.parse_alike (source : Source) (tokens : List Token) (alike : a.Alike b) :
    Matched (fun p q => q.instructions = p.instructions) Eq Dictionary.Alike
      ((source.parse tokens).run a) ((source.parse tokens).run b) := by
  have start : ({} : LoopBinder) = {} := rfl
  have finished : ∀ s t : LoopBinder, s = t → SameStep Eq s.finish t.finish := by
    rintro s _ rfl
    cases s.finish with
    | error e => exact .error
    | ok code => exact .ok rfl
  have same := consumeAll_on Definition.isLikeness_alike LoopBinder.inStepOn start finished source
    tokens alike
  rw [run_parse, run_parse]
  generalize (source.consumeAll tokens {} LoopBinder.consume LoopBinder.finish).run a = left,
    (source.consumeAll tokens {} LoopBinder.consume LoopBinder.finish).run b = right at same
  cases same with
  | ok code left => exact .ok code.symm left
  | error errors left => exact .error errors left

/-- The body of a function is compiled to the same instructions, or refused with the same error,
wherever its declaration and those around it stand. -/
theorem Definition.compile_alike {d e : Definition} (same : d.Alike e) (args : List Text)
    (limit : Int) (alike : a.Alike b) :
    Matched (fun p q => q.instructions = p.instructions) Eq Dictionary.Alike
      ((d.compile args limit).run a) ((e.compile args limit).run b) := by
  have body : e.bodySource args limit = d.bodySource args limit := by
    unfold bodySource
    rw [isLikeness_alike.instantiate same, isLikeness_alike.name same]
  unfold compile
  rw [body]
  cases d.bodySource args limit with
  | error fault => exact .error rfl alike
  | ok source => exact Source.parse_alike _ _ alike

namespace Lexer

variable {file text : Text}

theorem Mode.read_elsewhere {p : Position} {c : Char} {mode after : Mode} {completed : List Token}
    (read : mode.read file p c = .ok (completed, after)) (file' : Text) :
    mode.read file' p c = .ok (completed, after) := by
  cases mode with
  | start | comment | declaration | word => exact read
  | arguments origin collected depth =>
    simp only [Mode.read] at read ⊢
    by_cases lineEnd : c = '\n'
    · rw [if_pos lineEnd] at read
      cases read
    · rw [if_neg lineEnd] at read ⊢
      exact read

theorem foldlM_read_elsewhere {s after : State}
    (read : text.foldlM (State.read file) s = .ok after) (file' : Text) :
    text.foldlM (State.read file') s = .ok after := by
  induction text generalizing s with
  | nil => exact read
  | cons c rest ih =>
    obtain ⟨next, one, others⟩ := foldlM_cons_eq_ok_iff.mp read
    refine foldlM_cons_eq_ok_iff.mpr ⟨next, ?_, ih others⟩
    unfold State.read at one ⊢
    cases stepped : s.mode.read file s.position c with
    | error e => rw [stepped] at one; cases one
    | ok result =>
      rw [stepped] at one
      rw [Mode.read_elsewhere stepped file']
      exact one

/-- The file of a text is told only where the text does not lex. -/
theorem tokenize_elsewhere {tokens : List Token} (lexed : tokenize file text = .ok tokens)
    (file' : Text) : tokenize file' text = .ok tokens := by
  unfold tokenize at lexed ⊢
  cases read : text.foldlM (State.read file) {} with
  | error e => rw [read] at lexed; cases lexed
  | ok s =>
    rw [read] at lexed
    rw [foldlM_read_elsewhere read file']
    obtain ⟨mode, position, completed⟩ := s
    cases mode with
    | arguments => cases lexed
    | start | comment | declaration | word => exact lexed

end Lexer

/-- A declaration line makes the same definition in any place. -/
theorem readDeclaration_elsewhere {kind : DefinitionKind} {value : Text} {place : Location}
    {d : Definition} (read : readDeclaration kind value place = .ok d) (place' : Location) :
    ∃ e, readDeclaration kind value place' = .ok e ∧ d.Alike e := by
  unfold readDeclaration at read ⊢
  dsimp only at read ⊢
  split at read
  · cases read
  · split at read
    · cases read
    · split at read
      · cases read
      · split at read
        · cases read
        · rename_i named distinct
          cases read
          rw [if_neg named, if_neg distinct]
          exact ⟨_, rfl, rfl⟩

/-- Items of which one stands for the operations that the other one stands for. -/
def Item.SpellsAs (item item' : Item) : Prop :=
  ∀ op, LoopBinder.Spells item op → LoopBinder.Spells item' op

theorem Item.plain_spellsAs (text : Text) (place place' : Location) :
    (Item.plain text place).SpellsAs (.plain text place') := by
  rintro op ⟨location, made⟩
  unfold LoopBinder.Spells
  simp only [instruction, Instruction.ofText] at made ⊢
  cases found : Command.ofText? text with
  | none => rw [found] at made; cases made
  | some command =>
    rw [found] at made
    cases made
    exact ⟨_, rfl⟩

theorem Item.call_spellsAs {d e : Definition} (alike : d.Alike e) (args : List Text)
    (place place' : Location) : (Item.call d args place).SpellsAs (.call e args place') := by
  rintro op ⟨location, made⟩
  cases made
  rw [← Definition.isLikeness_alike.name alike]
  exact ⟨_, rfl⟩

namespace Expansion

theorem bodyTokens_elsewhere {file : Text} {d e : Definition} {args : List Text}
    {place : Location} {tokens : List Token}
    (made : bodyTokens file d args place = .ok tokens) (alike : d.Alike e) (file' : Text)
    (place' : Location) : bodyTokens file' e args place' = .ok tokens := by
  obtain ⟨text, instantiated, lexed⟩ := bodyTokens_eq_ok_iff.mp made
  rw [← Definition.isLikeness_alike.instantiate alike] at instantiated
  exact bodyTokens_eq_ok_iff.mpr ⟨text, instantiated, Lexer.tokenize_elsewhere lexed file'⟩

/-- Tokens that are spelled alike expand alike, in any source and wherever they and the
definitions stand. -/
theorem Expands.respelled {source : Source} {budget : Nat} {chain : List Text}
    {origin : Option Location} {tokens tokens' : List Token} {before after : Dictionary}
    {items : List Item} (expands : Expands source budget chain origin tokens before items after)
    (spelled : tokens'.map Token.spelling = tokens.map Token.spelling)
    (source' : Source) {before' : Dictionary} (alike : before.Alike before')
    (origin' : Option Location) :
    ∃ items' after', Expands source' budget chain origin' tokens' before' items' after' ∧
      after.Alike after' ∧ List.Forall₂ Item.SpellsAs items items' := by
  -- the first token of both, if there is one
  have first {token : Token} {rest tokens' : List Token}
      (spelled : tokens'.map Token.spelling = (token :: rest).map Token.spelling) :
      ∃ token' rest', tokens' = token' :: rest' ∧ token'.kind = token.kind ∧
        token'.value = token.value ∧ rest'.map Token.spelling = rest.map Token.spelling := by
    obtain ⟨token', rest', rfl, same, others⟩ := List.map_eq_cons_iff.mp spelled
    exact ⟨token', rest', rfl, (Prod.mk.inj same).1, (Prod.mk.inj same).2, others⟩
  induction expands generalizing before' origin' tokens' with
  | nil =>
    obtain rfl := List.map_eq_nil_iff.mp spelled
    exact ⟨[], before', .nil, alike, .nil⟩
  | endOfText last =>
    obtain ⟨token', rest', rfl, kind, -, -⟩ := first spelled
    exact ⟨[], before', .endOfText (kind.trans last), alike, .nil⟩
  | @declaration _ _ origin before between after items token rest form d isForm read declared _ ih =>
    obtain ⟨token', rest', rfl, kind, value, others⟩ := first spelled
    obtain ⟨e, read', same⟩ := readDeclaration_elsewhere read (source'.place origin' token')
    rw [← value] at read'
    obtain ⟨between', declared', alike'⟩ :=
      alike.exists_declare Definition.isLikeness_alike.name same declared
    obtain ⟨items', after', expands', left, spells⟩ := ih others alike' origin'
    exact ⟨items', after', .declaration (kind.trans isForm) read' declared' expands', left, spells⟩
  | @symbol _ _ origin _ _ _ token _ isSymbol _ ih =>
    obtain ⟨token', rest', rfl, kind, value, others⟩ := first spelled
    obtain ⟨items', after', expands', left, spells⟩ := ih others alike origin'
    rw [← value]
    exact ⟨_, after', .symbol (kind.trans isSymbol) expands', left,
      .cons (Item.plain_spellsAs _ _ _) spells⟩
  | @plainWord _ _ origin _ _ _ token _ name isWord split absent _ ih =>
    obtain ⟨token', rest', rfl, kind, value, others⟩ := first spelled
    obtain ⟨items', after', expands', left, spells⟩ := ih others alike origin'
    have absent' : before'.find? name = none := by
      rcases alike.find? Definition.isLikeness_alike.name name with ⟨-, right⟩ | ⟨d, e, found, -⟩
      · exact right
      · cases absent.symm.trans found
    rw [← value] at split
    exact ⟨_, after', .plainWord (kind.trans isWord) split absent' expands', left,
      .cons (Item.plain_spellsAs _ _ _) spells⟩
  | @call _ _ origin _ _ _ token _ name raw d isWord split found form arity _ ih =>
    obtain ⟨token', rest', rfl, kind, value, others⟩ := first spelled
    obtain ⟨items', after', expands', left, spells⟩ := ih others alike origin'
    obtain ⟨e, found', same⟩ := alike.exists_find? found
    have form' := (Definition.isLikeness_alike.kind same).trans form
    have arity' := arity.trans (congrArg List.length (Definition.isLikeness_alike.params same)).symm
    rw [← value] at split
    exact ⟨_, after', .call (kind.trans isWord) split found' form' arity' expands', left,
      .cons (Item.call_spellsAs same _ _ _) spells⟩
  | @body _ chain origin _ _ _ _ _ token _ name raw d tokens isWord split found form recursive made
      _ _ ihBody ihRest =>
    obtain ⟨token', rest', rfl, kind, value, others⟩ := first spelled
    obtain ⟨e, found', same⟩ := alike.exists_find? found
    have named := Definition.isLikeness_alike.name same
    have sameKind := Definition.isLikeness_alike.kind same
    obtain ⟨inner', between', body', alike', spellsBody⟩ :=
      ihBody rfl alike (some (source'.place origin' token'))
    obtain ⟨items', after', rest', left, spellsRest⟩ := ihRest others alike' origin'
    rw [← value] at split
    refine ⟨inner' ++ items', after', ?_, left, List.rel_append spellsBody spellsRest⟩
    refine .body (kind.trans isWord) split found' (sameKind ▸ form) ?_
      (bodyTokens_elsewhere made same source'.file _) ?_ rest'
    · rw [sameKind, named]
      exact recursive
    · rw [named]
      exact body'

end Expansion

/-- Programs with the same instructions and, where they call functions, the same definitions,
places aside. -/
structure Program.Alike (p q : Program) : Prop where
  code : p.instructions.map Instruction.unplaced = q.instructions.map Instruction.unplaced
  definitions : p.calls ≠ [] → p.definitions.Alike q.definitions

theorem LoopBinder.spells_elsewhere {items items' : List Item} {ops : List Operation}
    (spelled : List.Forall₂ Spells items ops) (alike : List.Forall₂ Item.SpellsAs items items') :
    List.Forall₂ Spells items' ops := by
  induction alike generalizing ops with
  | nil => exact spelled
  | cons first _ ih =>
    cases spelled with
    | cons op rest => exact .cons (first _ op) (ih rest)

/-- The tokens of a program are the same program in any other source with its limit. -/
theorem Source.exists_parse_elsewhere {source source' : Source} {tokens : List Token}
    {before before' after : Dictionary} {p : Program}
    (parsed : (source.parse tokens).run before = .ok p after)
    (limit : source'.limit = source.limit) (alike : before.Alike before') :
    ∃ q after', (source'.parse tokens).run before' = .ok q after' ∧ p.Alike q := by
  obtain ⟨items, expands, spelled⟩ := exists_spelled parsed
  obtain ⟨items', after', expands', left, spells⟩ := expands.respelled rfl source' alike none
  rw [← limit] at expands'
  obtain ⟨q, parsed', code⟩ :=
    exists_parse_of_spells parsed expands' (LoopBinder.spells_elsewhere spelled spells)
  refine ⟨q, after', parsed', code.symm, fun _ => ?_⟩
  rw [definitions_eq parsed, definitions_eq parsed']
  exact left

end TapeLang
