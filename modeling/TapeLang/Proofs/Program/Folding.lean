import TapeLang.Proofs.Expansion.Absent
import TapeLang.Proofs.Program.Yields
import TapeLang.Proofs.Token.Trimmed

/-! Folding of a line into a macro. A line can be declared as the body of a new macro and this macro
called in its place: what the line reads as by itself, its declaration keeps as text, and the call
reads it within one level more. -/
namespace TapeLang

/-- The macro that stands for a line. -/
def Definition.ofLine (name line : Text) : Definition where
  kind := .macroForm
  name := name
  params := []
  body := line.bare

/-- The line that declares the macro, behind its sigil. -/
def Definition.lineText (name line : Text) : Text := name ++ " = ".toList ++ line

namespace IsCallName

variable {name line : Text}

theorem isDeclarable (legal : IsCallName name) (oneLine : '\n' ∉ line) (kind : DefinitionKind) :
    ({ Definition.ofLine name line with kind } : Definition).IsDeclarable where
  first := by
    cases name with
    | nil => exact absurd rfl legal.ne_nil
    | cons c rest =>
      have letter : Text.isLetter c = true := by simpa using legal.first
      exact Text.isNameStart_of_isLetter letter
  ink := by
    intro c first
    have word := legal.word c (List.mem_of_mem_head? first)
    apply Bool.eq_false_iff.mpr
    intro blank
    cases word.symm.trans (Text.isWord_of_isBlank blank)
  word := legal.word
  stripped := List.forall_mem_nil _
  plain := List.forall_mem_nil _
  distinct := List.nodup_nil
  body := by
    refine ⟨Text.strip_idem _, fun member => ?_, fun member => ?_⟩
    · exact oneLine (List.takeWhile_subset _ (Text.mem_of_mem_strip member))
    · have sign := List.all_eq_true.mp List.all_takeWhile _ (Text.mem_of_mem_strip member)
      simp at sign

/-- The line that declares a name makes its definition. -/
theorem readDeclaration_lineText (legal : IsCallName name) (oneLine : '\n' ∉ line)
    (kind : DefinitionKind) (place : Location) :
    readDeclaration kind (Lexer.declarationText (Definition.lineText name line)) place =
      .ok { Definition.ofLine name line with kind, location := some place } := by
  have head : ∀ c ∈ name ++ " = ".toList, decide (c ≠ '#') = true := by
    intro c member
    apply decide_eq_true
    rintro rfl
    rcases List.mem_append.mp member with inName | inSign
    · exact absurd (legal.word '#' inName) (by decide)
    · exact absurd inSign (by decide)
  have cut : Lexer.declarationText (Definition.lineText name line) =
      (Definition.ofLine name line).renderedHead ++
        '=' :: Text.stripEnd (' ' :: line.takeWhile (· ≠ '#')) := by
    rw [Lexer.declarationText, Definition.lineText, List.takeWhile_append_of_pos head,
      Definition.renderedHead]
    have split : name ++ " = ".toList ++ line.takeWhile (· ≠ '#') =
        (name ++ [' ']) ++ '=' :: ' ' :: line.takeWhile (· ≠ '#') := by simp
    rw [split, Text.stripEnd_append_cons (by decide)]
    simp [Definition.ofLine]
  rw [cut]
  have body := Text.strip_stripEnd_blank (line.takeWhile (· ≠ '#'))
  exact readDeclaration_renderedHead (legal.isDeclarable oneLine kind) body place

/-- The line that declares a name reads as one declaration. -/
theorem readsAs_lineText (legal : IsCallName name) (oneLine : '\n' ∉ line)
    (kind : DefinitionKind) :
    Text.ReadsAs (kind.sigil :: Definition.lineText name line)
      [(.declaration kind, Lexer.declarationText (Definition.lineText name line))] := by
  refine (Lexer.Lexes.declaration ?_ kind).readsAs
  intro member
  rcases List.mem_append.mp member with inHead | inLine
  · rcases List.mem_append.mp inHead with inName | inSign
    · exact absurd (legal.word '\n' inName) (by decide)
    · exact absurd inSign (by decide)
  · exact oneLine inLine

end IsCallName

theorem Dictionary.Alike.find?_eq_none {a b : Dictionary} {name : Text} (alike : a.Alike b)
    (undefined : b.find? name = none) : a.find? name = none := by
  rcases alike.find? Definition.isLikeness_alike.name name with ⟨absent, -⟩ | ⟨_, _, -, found, -⟩
  · exact absent
  · cases undefined.symm.trans found

theorem Dictionary.Extends.find?_eq_none {before after : Dictionary} {name : Text}
    (extended : after.Extends before) (undefined : after.find? name = none) :
    before.find? name = none := by
  cases found : before.find? name with
  | none => rfl
  | some d => cases undefined.symm.trans (find?_extends extended found)

/-- A call without arguments of a definition without parameters stands for the body. -/
theorem Expansion.bodyTokens_of_plain {file : Text} {d : Definition} (plain : d.params = [])
    {tokens : List Token} (lexed : tokenize file d.body = .ok tokens) (place : Location) :
    bodyTokens file d [] place = .ok tokens := by
  refine bodyTokens_eq_ok_iff.mpr ⟨d.body, ?_, lexed⟩
  rw [Definition.instantiate, plain, if_pos rfl]
  exact congrArg Except.ok (substitute_nil d.body)

namespace Text

variable {text name : Text} {spelled : List (TokenKind × Text)} {a b : Dictionary}

theorem Meets.alike (meets : text.Meets a name) (alike : a.Alike b) : text.Meets b name := by
  induction meets with
  | named names => exact .named names
  | inBody names found form instantiated _ ih =>
    obtain ⟨e, found', same⟩ := alike.exists_find? found
    rw [← Definition.isLikeness_alike.kind same] at form
    rw [← Definition.isLikeness_alike.instantiate same] at instantiated
    exact .inBody names found' form instantiated ih

/-- What a text does not meet, its tokens spare. -/
theorem ReadsAs.spared (reads : ReadsAs text spelled) (unmet : ¬ text.Meets a name) :
    Expansion.Spared a name (spelled.map Token.ofSpelling) := by
  obtain ⟨tokens, lexed, same⟩ := reads
  intro t member c names
  obtain ⟨s, listed, rfl⟩ := List.mem_map.mp member
  have inText : s ∈ tokens.map Token.spelling := same ▸ List.mem_append_left _ listed
  obtain ⟨lexedToken, among, rfl⟩ := List.mem_map.mp inText
  exact Expansion.spared_of_not_meets lexed unmet lexedToken among c names

/-- The words of a text are those of its tokens, in any file. -/
theorem ReadsAs.words (reads : ReadsAs text spelled) {file : Text} {P : Text → Prop}
    (each : ∀ tokens, tokenize file text = .ok tokens → ∀ t ∈ tokens, t.kind = .word →
      P t.value) : ∀ s ∈ spelled, s.1 = .word → P s.2 := by
  obtain ⟨tokens, lexed, same⟩ := reads.exists_tokenize file
  intro s listed isWord
  have inText : s ∈ tokens.map Token.spelling := same ▸ List.mem_append_left _ listed
  obtain ⟨t, among, rfl⟩ := List.mem_map.mp inText
  exact each tokens lexed t among isWord

end Text

/-- A blank is no instruction. -/
theorem Command.ofText?_of_isBlank {c : Char} (blank : Text.isBlank c = true) :
    ofText? [c] = none := by
  apply List.find?_eq_none.mpr
  intro command _
  have ink : Text.isBlank command.symbol = false ∧ command.name.toList.length ≠ 1 := by
    cases command with
    | act action => cases action <;> decide
    | jump | back => decide
  simp only [Bool.or_eq_true, beq_iff_eq, List.cons.injEq, and_true, not_or]
  exact ⟨Text.ne_of_isBlank blank ink.1, fun same => ink.2 (by rw [← same]; rfl)⟩

namespace Expansion

variable {budget : Nat} {spelled : List (TokenKind × Text)} {before after : Dictionary}
variable {ops : List Operation} {name line value : Text} {c : Char}

/-- No blank is a symbol where symbols are instructions. -/
theorem Yields.blank_not_symbol (yields : Yields budget spelled before ops after)
    (unended : ∀ s ∈ spelled, s.1 ≠ .endOfText) (blank : Text.isBlank c = true) :
    (.symbol, [c]) ∉ spelled := by
  intro member
  obtain ⟨front, back, rfl⟩ := List.append_of_mem member
  have unendedFront := fun s inFront => unended s (List.mem_append_left _ inFront)
  obtain ⟨_, between, _, -, yieldsLater, -⟩ := (yields_append_iff unendedFront).mp yields
  have alone : ∀ s ∈ [((.symbol, [c]) : TokenKind × Text)], s.1 ≠ .endOfText := by simp
  obtain ⟨_, _, _, yieldsHere, -, -⟩ := (yields_append_iff alone).mp yieldsLater
  obtain ⟨items, left, expands, spells, -⟩ := yieldsHere
  cases expands with
  | endOfText kind | declaration kind | plainWord kind | call kind | body kind => cases kind
  | symbol kind _ =>
    cases spells with
    | cons spells _ =>
      obtain ⟨location, made⟩ := spells
      simp only [Item.instruction, Instruction.ofText, Token.ofSpelling,
        Command.ofText?_of_isBlank blank] at made
      cases made

/-- What a line yields, the declaration of a macro that has these tokens for its body and a call of
it yield, within one level more. -/
theorem Yields.folded (yields : Yields budget spelled before ops after)
    (reads : line.ReadsAs spelled) {d : Definition} (readsBody : d.body.ReadsAs spelled)
    (form : d.kind = .macroForm) (plain : d.params = []) (legal : IsCallName d.name)
    (made : ∀ place, readDeclaration .macroForm value place =
      .ok { d with location := some place })
    (undefined : after.find? d.name = none) (unmet : ¬ line.Meets after d.name) :
    ∃ left, Yields (budget + 1) [(.declaration .macroForm, value), (.word, d.name)] before ops
      left := by
  obtain ⟨items, left, expands, spells, alike⟩ := yields
  have undefined' := alike.find?_eq_none undefined
  have absent := expands.extends.find?_eq_none undefined'
  let source : Source := ⟨[], #[], 0⟩
  let declaring : Token := .ofSpelling (.declaration .macroForm, value)
  let calling : Token := .ofSpelling (.word, d.name)
  obtain ⟨between, declared⟩ := Dictionary.exists_declare_of_absent
    (d := { d with location := some (source.place none declaring) }) absent
  have agrees : before.AgreesBeside d.name between := by
    intro other differs
    rw [Dictionary.find?_declare declared, if_neg differs]
  have found := Dictionary.find?_declare declared d.name
  rw [if_pos rfl] at found
  -- the body of the call is the line, read inside of the call
  obtain ⟨left', expandsBeside, -⟩ := expands.beside
    (reads.spared fun meets => unmet (meets.alike alike)) undefined' (.refl left) agrees
    (List.Subset.refl [d.name])
  obtain ⟨tokens, lexed, same⟩ := readsBody.exists_tokenize []
  have ended : Expands source budget [d.name] none
      ((spelled ++ [(TokenKind.endOfText, [])]).map Token.ofSpelling) between items left' := by
    rw [List.map_append]
    exact (expands_ended_iff (Token.unended_ofSpelling reads.unended) rfl).mpr expandsBeside
  obtain ⟨items', last, inner, -, spells'⟩ := ended.respelled
    (same.trans (Token.map_spelling_ofSpelling _).symm) source (.refl between)
    (some (source.place none calling))
  refine ⟨last, items' ++ [], last, ?_, ?_, .refl last⟩
  · exact .declaration rfl (made _) declared
      (.body rfl (splitCall?_name legal) found (by simp [form]) (by simp [form])
        (bodyTokens_of_plain plain lexed _) inner .nil)
  · rw [List.append_nil]
    exact LoopBinder.spells_elsewhere spells spells'

end Expansion

namespace Program

open Expansion

variable {file name line : Text} {front : List Text} {limit higher : Int} {p : Program}

/-- A line without a line end and without a comment sign in its words can be folded into a new
macro, if the name of the macro can be called and expanding the line does not meet it. What is read
within a limit of nesting is then read, within any higher one, as the same instructions, places
aside. -/
theorem ofText_folded (oneLine : '\n' ∉ line)
    (unsigned : ∀ tokens, tokenize file line = .ok tokens → ∀ t ∈ tokens, t.kind = .word →
      '#' ∉ t.value)
    (legal : IsCallName name) (nested : 0 ≤ limit) (deeper : limit < higher)
    (read : ofText file (Text.join ['\n'] (front ++ [line])) limit = .ok p)
    (undefined : p.definitions.find? name = none) (unmet : ¬ line.Meets p.definitions name) :
    ∃ q, ofText file (Text.join ['\n'] (front ++ ['$' :: Definition.lineText name line, name]))
        higher = .ok q ∧
      q.instructions.map Instruction.unplaced = p.instructions.map Instruction.unplaced := by
  obtain ⟨spelled, reads, yields⟩ := exists_yields_of_ofText read
  obtain ⟨parts, each, rfl⟩ := Text.readsAs_join_iff.mp reads
  obtain ⟨partsFront, others, rfl, eachFront, eachLine⟩ := exists_append_of_forall₂ each
  obtain ⟨part, rfl, readsLine⟩ : ∃ part, others = [part] ∧ line.ReadsAs part := by
    cases eachLine with
    | cons here last =>
      cases last
      exact ⟨_, rfl, here⟩
  have readsFront : (Text.join ['\n'] front).ReadsAs partsFront.flatten :=
    Text.readsAs_join_iff.mpr ⟨partsFront, eachFront, rfl⟩
  rw [List.flatten_append, List.flatten_singleton] at yields
  obtain ⟨first, between, second, yieldsFront, yieldsLine, same⟩ :=
    (yields_append_iff readsFront.unended).mp yields
  have words : ∀ s ∈ part, s.1 = .word → '#' ∉ s.2 :=
    readsLine.words (P := fun word => '#' ∉ word) unsigned
  have readsBody : line.bare.ReadsAs part := readsLine.bare oneLine words fun c blank =>
    yieldsLine.blank_not_symbol readsLine.unended blank
  obtain ⟨left, folded⟩ := yieldsLine.folded readsLine (d := Definition.ofLine name line) readsBody
    rfl rfl legal (legal.readDeclaration_lineText oneLine .macroForm) undefined unmet
  have reads' := Text.readsAs_join_iff.mpr ⟨_, List.rel_append eachFront
    (.cons (legal.readsAs_lineText oneLine .macroForm)
      (.cons (IsCallWord.name legal).readsAs .nil)), List.flatten_append.symm⟩
  have yields' : Yields higher.toNat _ {} p.operations left :=
    (yields_append_iff readsFront.unended).mpr ⟨first, between, second,
      yieldsFront.within (by omega), folded.within (by omega), same⟩
  obtain ⟨q, read', code, -⟩ := exists_ofText_of_yields read reads' yields' file
  exact ⟨q, read', code⟩

/-- A line with nested calls, loops that it leaves to be closed and a comment. -/
theorem ofText_folded_nested :
    ∃ p q, ofText [] "$d(b) = [ b\n d(d(+)) ]] # two".toList 2 = .ok p ∧ p.size = 5 ∧
      ofText [] "$d(b) = [ b\n$m =  d(d(+)) ]] # two\nm".toList 3 = .ok q ∧
      q.instructions.map Instruction.unplaced = p.instructions.map Instruction.unplaced := by
  have size : (ofText [] "$d(b) = [ b\n d(d(+)) ]] # two".toList 2).toOption.map Program.size =
      some 5 := by decide +kernel
  have definitions : (ofText [] "$d(b) = [ b\n d(d(+)) ]] # two".toList 2).toOption.map
      (fun p => p.definitions.toList.map fun d => (d.name, d.params, d.body)) =
      some [("d".toList, ["b".toList], "[ b".toList)] := by decide +kernel
  have lexed : tokenize [] " d(d(+)) ]] # two".toList =
      .ok [⟨.word, "d(d(+))".toList, 1, 2⟩, ⟨.symbol, [']'], 1, 10⟩, ⟨.symbol, [']'], 1, 11⟩,
        ⟨.endOfText, [], 1, 18⟩] := by decide +kernel
  have joined : Text.join ['\n'] (["$d(b) = [ b".toList] ++ [" d(d(+)) ]] # two".toList]) =
      "$d(b) = [ b\n d(d(+)) ]] # two".toList := by decide +kernel
  have joined' : Text.join ['\n'] (["$d(b) = [ b".toList] ++
      ['$' :: Definition.lineText "m".toList " d(d(+)) ]] # two".toList, "m".toList]) =
      "$d(b) = [ b\n$m =  d(d(+)) ]] # two\nm".toList := by decide +kernel
  have unsigned : ∀ tokens, tokenize [] " d(d(+)) ]] # two".toList = .ok tokens →
      ∀ t ∈ tokens, t.kind = .word → '#' ∉ t.value := by
    intro tokens lexed'
    cases lexed.symm.trans lexed'
    decide +kernel
  cases read : ofText [] "$d(b) = [ b\n d(d(+)) ]] # two".toList 2 with
  | error e =>
    rw [read] at size
    cases size
  | ok p =>
    rw [read] at size definitions
    have only : ∀ d ∈ p.definitions.toList,
        (d.name, d.params, d.body) = ("d".toList, ["b".toList], "[ b".toList) := by
      intro d listed
      exact List.mem_singleton.mp
        (Option.some.inj definitions ▸
          List.mem_map_of_mem (f := fun d => (d.name, d.params, d.body)) listed)
    have lacks : p.definitions.Lacks "m".toList := by
      refine ⟨fun d listed _ => ?_, fun d listed _ => ?_, fun d listed _ => ?_⟩
      · rw [(Prod.mk.inj (Prod.mk.inj (only d listed)).2).1]
        decide +kernel
      · rw [(Prod.mk.inj (Prod.mk.inj (only d listed)).2).1]
        decide +kernel
      · rw [(Prod.mk.inj (Prod.mk.inj (only d listed)).2).2]
        decide +kernel
    have undefined : p.definitions.find? "m".toList = none := by
      refine Dictionary.find?_eq_none_iff.mpr fun member => ?_
      obtain ⟨d, listed, named⟩ := List.mem_map.mp member
      cases named.symm.trans (Prod.mk.inj (only d listed)).1
    have unmet : ¬ Text.Meets p.definitions " d(d(+)) ]] # two".toList "m".toList :=
      lacks.not_meets (by decide +kernel) (by decide +kernel)
    have legal : IsCallName "m".toList :=
      ⟨by decide +kernel, List.all_eq_true.mp (by decide +kernel)⟩
    rw [← joined] at read
    obtain ⟨q, read', code⟩ := ofText_folded (by decide +kernel) unsigned legal (by decide)
      (by decide : (2 : Int) < 3) read undefined unmet
    rw [joined'] at read'
    exact ⟨p, q, rfl, Option.some.inj size, read', code⟩

/-- A comment sign among arguments cuts the body off, a name that does not begin with a letter is
declared but not called, and substitution can form the name of the macro out of other words. -/
theorem line_not_folded :
    ((ofText [] "$d(x) = x\nd(+#-)".toList 2).toOption.map size = some 1 ∧
      ofText [] "$d(x) = x\n$m = d(+#-)\nm".toList 2 =
        .error ⟨.unterminatedArguments [] 1 1, none⟩) ∧
    ((ofText [] "+".toList 2).toOption.map size = some 1 ∧
      ofText [] "$² = +\n²".toList 2 =
        .error ⟨.invalidInstruction "²".toList, some ⟨[], 2, 1, "²".toList⟩⟩) ∧
    (ofText [] "$d(+;-) = +-\nd(IN;CR)".toList 2).toOption.map size = some 1 ∧
      ofText [] "$d(+;-) = +-\n$INCR = d(IN;CR)\nINCR".toList 2 =
        .error ⟨.expansionTooDeep "INCR".toList 2, some ⟨[], 3, 1, "INCR".toList⟩⟩ := by
  decide +kernel

end Program
end TapeLang
