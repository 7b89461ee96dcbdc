import TapeLang.Proofs.Inlining.Block
import TapeLang.Proofs.Program.Folding
import TapeLang.Proofs.Token.Spans

/-! Which declared names can be called. A declaration takes any name that starts with a letter or
with a numeric sign other than a decimal digit. The lexer makes words of the former alone, so exactly
these names are called, and it makes no word without arguments that cannot be declared. -/
namespace TapeLang

/-- A name that a declaration can have. -/
structure IsDeclaredName (name : Text) : Prop where
  first : name.head?.any Text.isNameStart = true
  word : ∀ c ∈ name, Text.isWord c = true

/-- The text of a call: a name, and an argument list if there is one. -/
def callWord (name : Text) (raw : Option Text) : Text :=
  name ++ raw.elim [] fun list => '(' :: list ++ [')']

/-- The words of a call are split into the name and the arguments. -/
theorem splitCall?_callWord {name : Text} (some_char : name ≠ [])
    (word : ∀ c ∈ name, Text.isWord c = true) (raw : Option Text) :
    splitCall? (callWord name raw) = some (name, raw) := by
  have taken (list : Text) := @List.takeWhile_append_of_pos _ _ _ list word
  have dropped (list : Text) := @List.dropWhile_append_of_pos _ _ _ list word
  have ends : Text.isWord '(' = false := by decide
  cases raw with
  | none =>
    have bare : callWord name none = name := List.append_nil name
    have taken : name.takeWhile Text.isWord = name := by simpa using taken []
    have dropped : name.dropWhile Text.isWord = [] := by simpa using dropped []
    simp [splitCall?, bare, taken, dropped, some_char]
  | some list =>
    have listed : callWord name (some list) = name ++ '(' :: (list ++ [')']) := rfl
    simp [splitCall?, listed, taken, dropped, some_char, ends]

theorem isDeclaredName_of_readDeclaration {kind : DefinitionKind} {value : Text} {place : Location}
    {d : Definition} (read : readDeclaration kind value place = .ok d) :
    IsDeclaredName d.name := by
  unfold readDeclaration at read
  dsimp only at read
  split at read
  · cases read
  · split at read
    · cases read
    · rename_i split
      obtain ⟨first, -, word, -⟩ := splitHead?_spec split
      split at read
      · cases read
      · split at read
        · cases read
        · cases read
          exact ⟨first, word⟩

namespace IsDeclaredName

variable {name : Text}

theorem ne_nil (declared : IsDeclaredName name) : name ≠ [] := by
  rintro rfl
  exact absurd declared.first (by simp)

theorem isCallName (declared : IsDeclaredName name)
    (letter : name.head?.any Text.isLetter = true) : IsCallName name :=
  ⟨letter, declared.word⟩

theorem stands_of_isWord {c : Char} (word : Text.isWord c = true) (other : Text.isLetter c = false)
    (rest : Text) : (Span.symbol c).Stands rest := by
  refine ⟨Bool.eq_false_iff.mpr fun skipped => ?_, ?_, ?_, other⟩
  · cases word.symm.trans (Lexer.not_isWord_of_isSkipped skipped)
  · rintro rfl
    exact absurd word (by decide)
  · cases sigil : DefinitionKind.ofSigil? c with
    | none => rfl
    | some kind =>
      rw [DefinitionKind.eq_sigil_of_ofSigil? sigil] at word
      cases kind <;> exact absurd word (by decide)

/-- A numeric sign at the start of a name is a symbol, and the name goes on behind it. -/
theorem readsAs_numeric (declared : IsDeclaredName name)
    (other : ¬ name.head?.any Text.isLetter = true) : ∃ c rest spelled, name = c :: rest ∧
      Text.isOtherNumeric c = true ∧ name.ReadsAs ((.symbol, [c]) :: spelled) := by
  obtain ⟨c, rest, rfl⟩ := List.exists_cons_of_ne_nil declared.ne_nil
  obtain ⟨word, wordRest⟩ := List.forall_mem_cons.mp declared.word
  have starts : Text.isNameStart c = true := by simpa using declared.first
  have notLetter : Text.isLetter c = false := by simpa using other
  have numeric : Text.isOtherNumeric c = true := by
    obtain ⟨alphanumeric, notDecimal⟩ := Bool.and_eq_true_iff.mp starts
    have notDecimal : Text.isDecimal c = false := by simpa using notDecimal
    simpa [Text.isAlphanumeric, notLetter, notDecimal] using alphanumeric
  obtain ⟨spans, tail, rfl, stand, rfl | ⟨_, list, rfl, -, unclosed⟩⟩ := exists_stand rest
  · rw [List.append_nil] at *
    have all : Span.Stand [] (.symbol c :: spans) :=
      ⟨stands_of_isWord word notLetter _, stand⟩
    refine ⟨c, _, (Span.tokens (Span.symbol c).text spans).map Token.spelling, rfl, numeric, _,
      tokenize_of_stand all [], ?_⟩
    simp [Span.tokens, Span.token?, Lexer.token, Token.spelling]
  · have opens : '(' ∈ list := List.mem_of_head? unclosed.opens
    exact absurd (wordRest '(' (by simp [opens])) (by decide)

theorem readsAs_word_iff (declared : IsDeclaredName name) :
    name.ReadsAs [(.word, name)] ↔ name.head?.any Text.isLetter = true := by
  constructor
  · intro reads
    by_contra other
    obtain ⟨c, rest, spelled, -, -, reads'⟩ := declared.readsAs_numeric other
    cases reads.unique reads'
  · intro letter
    exact (IsCallWord.name (declared.isCallName letter)).readsAs

/-- A word that names a definition is read as a call of it. -/
theorem run_readWord {σ : Type} {dictionary : Dictionary} {d : Definition}
    (declared : IsDeclaredName d.name) (found : dictionary.find? d.name = some d)
    (source : Source) (consume : σ → Item → Except SourceError σ)
    (descend : Option (Expansion.Descend σ)) (chain : List Text) (raw : Option Text)
    (place : Location) (s : σ) :
    (Expansion.readWord source consume descend chain (callWord d.name raw) place).run
        ⟨dictionary, s⟩ =
      (Expansion.expandCall source consume descend chain d (argumentList (raw.getD [])) place).run
        ⟨dictionary, s⟩ := by
  simp only [Expansion.readWord, splitCall?_callWord declared.ne_nil declared.word,
    EStateM.run_bind, EStateM.run_get, found]

end IsDeclaredName

theorem isCallName_of_word {file text : Text} {tokens : List Token} {t : Token}
    (lexed : tokenize file text = .ok tokens) (listed : t ∈ tokens) (kind : t.kind = .word)
    (bare : '(' ∉ t.value) : IsCallName t.value := by
  have sound := tokenize_sound lexed t listed
  rw [Token.Sound, kind] at sound
  generalize t.value = word at sound bare
  cases sound with
  | name legal => exact legal
  | arguments => simp at bare

/-- A line that declares a name is accepted where the name is not in use. -/
theorem IsCallName.exists_parse {name line : Text} (legal : IsCallName name)
    (oneLine : '\n' ∉ line) (kind : DefinitionKind) (file : Text) (source : Source)
    {before : Dictionary} (absent : before.find? name = none) :
    ∃ tokens p after place,
      tokenize file (kind.sigil :: Definition.lineText name line) = .ok tokens ∧
      (source.parse tokens).run before = .ok p after ∧ p.operations = [] ∧
      after.toList =
        before.toList ++ [{ Definition.ofLine name line with kind, location := some place }] := by
  obtain ⟨tokens, lexed, spelled⟩ := (legal.readsAs_lineText oneLine kind).exists_tokenize file
  obtain ⟨t, ending, rfl⟩ : ∃ t ending, tokens = [t, ending] :=
    List.length_eq_two.mp (by simpa using congrArg List.length spelled)
  simp only [List.map_cons, List.map_nil, Token.spelling, List.cons_append, List.nil_append,
    List.cons.injEq, Prod.mk.injEq, and_true] at spelled
  obtain ⟨⟨declares, value⟩, ends, -⟩ := spelled
  have read := legal.readDeclaration_lineText oneLine kind (source.place none t)
  rw [← value] at read
  obtain ⟨after, declared⟩ := Dictionary.exists_declare_of_absent
    (d := { Definition.ofLine name line with kind, location := some (source.place none t) }) absent
  have expands : Expansion.Expands source source.limit.toNat [] none [t, ending] before [] after :=
    .declaration declares read declared (.endOfText ends)
  obtain ⟨p, parsed, operations⟩ := Source.exists_parse_of_openLoops expands .nil rfl
  exact ⟨_, p, after, _, lexed, parsed, operations, Dictionary.toList_declare declared⟩

/-- A declared name lexes to one word exactly if it starts with a letter. Any other name that a
declaration can have starts with a numeric sign, and this is read as a symbol. A word that names the
definition is read as a call of it. Conversely, every word without arguments that the lexer makes is
a name that can be declared, in each of the three forms and whatever the body. -/
theorem declared_callable (kind : DefinitionKind) (before : Dictionary) (source : Source) :
    (∀ {value place d after}, readDeclaration kind value place = .ok d →
      before.declare d = .ok after →
      (d.name.ReadsAs [(.word, d.name)] ↔ d.name.head?.any Text.isLetter = true) ∧
      (¬ d.name.head?.any Text.isLetter = true → ∃ c rest spelled, d.name = c :: rest ∧
        Text.isOtherNumeric c = true ∧ d.name.ReadsAs ((.symbol, [c]) :: spelled)) ∧
      ∀ later : Dictionary, later.Extends after → ∀ {σ}
        (consume : σ → Item → Except SourceError σ) descend chain raw location s,
        (Expansion.readWord source consume descend chain (callWord d.name raw) location).run
            ⟨later, s⟩ =
          (Expansion.expandCall source consume descend chain d (argumentList (raw.getD []))
            location).run ⟨later, s⟩) ∧
    (∀ {file text tokens t}, tokenize file text = .ok tokens → t ∈ tokens → t.kind = .word →
      '(' ∉ t.value → before.find? t.value = none → ∀ (line file' : Text), '\n' ∉ line →
        ∃ declaring p after place,
          tokenize file' (kind.sigil :: Definition.lineText t.value line) = .ok declaring ∧
          (source.parse declaring).run before = .ok p after ∧ p.operations = [] ∧
          after.toList = before.toList ++
            [{ Definition.ofLine t.value line with kind, location := some place }]) := by
  refine ⟨fun {value place d after} read declares => ?_,
    fun lexed listed word bare absent line file' oneLine =>
      (isCallName_of_word lexed listed word bare).exists_parse oneLine kind file' source absent⟩
  have declared := isDeclaredName_of_readDeclaration read
  have found := Dictionary.find?_declare declares d.name
  rw [if_pos rfl] at found
  exact ⟨declared.readsAs_word_iff, declared.readsAs_numeric, fun later extended _ consume descend
    chain raw location s => declared.run_readWord (Dictionary.find?_extends extended found)
      source consume descend chain raw location s⟩

/-- A macro whose name is a numeric sign. -/
def superscript : Definition where
  kind := .macroForm
  name := "²".toList
  params := []
  body := ['+']
  location := some ⟨[], 1, 1, "$² = +".toList⟩

/-- The line is accepted, and its name is read as a symbol: what should call the macro is
refused. -/
theorem superscript_not_called :
    (∃ p, Program.ofText [] "$² = +".toList 64 = .ok p ∧
      p.definitions.find? "²".toList = some superscript) ∧
    ¬ Text.ReadsAs "²".toList [(.word, "²".toList)] ∧
    Program.ofText [] "$² = +\n²".toList 64 =
      .error ⟨.invalidInstruction "²".toList, some ⟨[], 2, 1, "²".toList⟩⟩ := by
  have accepted : Program.ofText [] "$² = +".toList 64 =
      .ok ⟨#[], ⟨[superscript], by decide⟩⟩ := by decide +kernel
  have symbol : Text.ReadsAs "²".toList [(.symbol, "²".toList)] := ⟨_, rfl, rfl⟩
  refine ⟨⟨_, accepted, rfl⟩, fun word => ?_, by decide +kernel⟩
  cases symbol.unique word

/-- A name that goes on with a numeric sign, and a function under a word of a text. -/
theorem declared_callable_examples :
    Text.ReadsAs "m²".toList [(.word, "m²".toList)] ∧
    ∃ declaring p after place, tokenize [] "§go = m² # twice".toList = .ok declaring ∧
      ((Source.ofText [] [] 64).parse declaring).run {} = .ok p after ∧ p.operations = [] ∧
      after.toList = [⟨.functionForm, "go".toList, [], "m²".toList, some place⟩] := by
  let source := Source.ofText [] [] 64
  let place : Location := ⟨[], 1, 1, "$m² = +".toList⟩
  have read : readDeclaration .macroForm "m² = +".toList place =
      .ok ⟨.macroForm, "m²".toList, [], ['+'], some place⟩ := by decide +kernel
  have declares : Dictionary.declare {} ⟨.macroForm, "m²".toList, [], ['+'], some place⟩ =
      .ok ⟨[⟨.macroForm, "m²".toList, [], ['+'], some place⟩], by decide⟩ := by decide +kernel
  have lexed : tokenize [] "go+".toList =
      .ok [⟨.word, "go".toList, 1, 1⟩, ⟨.symbol, ['+'], 1, 3⟩, ⟨.endOfText, [], 1, 4⟩] := by
    decide +kernel
  refine ⟨((declared_callable .macroForm {} source).1 read declares).1.mpr (by decide +kernel), ?_⟩
  exact (declared_callable .functionForm {} source).2 lexed List.mem_cons_self rfl (by decide) rfl
    "m² # twice".toList [] (by decide)

end TapeLang
