import TapeLang.Proofs.Expansion.Consumer
import TapeLang.Proofs.Token.Spans

/-! Free form. Commands are spelled by their symbols and by their long names, with blanks and
comments between them, and only two long names need something between them. The program that a text
reads as is the one of its commands, in whatever layout. -/
namespace TapeLang

namespace Text

/-- What may stand in front of a command: blanks, and comments with the line feeds that end
them. -/
inductive IsGap : Text → Prop where
  | nil : IsGap []
  | blank {c : Char} {rest : Text} : c ∈ [' ', '\t', '\r', '\n'] → IsGap rest → IsGap (c :: rest)
  | comment {content rest : Text} : '\n' ∉ content → IsGap rest →
      IsGap ('#' :: content ++ '\n' :: rest)

/-- What may stand behind the last command, where the text may end in a comment. -/
inductive IsLastGap : Text → Prop where
  | gap {gap : Text} : IsGap gap → IsLastGap gap
  | comment {gap content : Text} : IsGap gap → '\n' ∉ content → IsLastGap (gap ++ '#' :: content)

/-- Whether a text spells commands in turn, with gaps around them. Between two long names the gap is
not empty. -/
inductive Spells : (afterName : Bool) → List Command → Text → Prop where
  | done {afterName : Bool} {gap : Text} : IsLastGap gap → Spells afterName [] gap
  | symbol {afterName : Bool} {gap rest : Text} {command : Command} {commands : List Command} :
      IsGap gap → Spells false commands rest →
      Spells afterName (command :: commands) (gap ++ [command.symbol] ++ rest)
  | name {afterName : Bool} {gap rest : Text} {command : Command} {commands : List Command} :
      IsGap gap → (afterName = true → gap ≠ []) → Spells true commands rest →
      Spells afterName (command :: commands) (gap ++ command.name.toList ++ rest)

variable {gap rest text : Text}

theorem AtWordEnd.append {front : Text} (some_char : front ≠ []) (ends : front.AtWordEnd)
    (rest : Text) : AtWordEnd (front ++ rest) := by
  intro c first
  rw [List.head?_append_of_ne_nil _ some_char] at first
  exact ends c first

theorem IsGap.atWordEnd (isGap : gap.IsGap) : gap.AtWordEnd := by
  cases isGap with
  | nil => exact nofun
  | @blank blank rest listed =>
    rintro c ⟨⟩
    simp only [List.mem_cons, List.not_mem_nil, or_false] at listed
    rcases listed with rfl | rfl | rfl | rfl <;> decide
  | comment =>
    rintro c ⟨⟩
    decide

theorem IsLastGap.atWordEnd (isGap : gap.IsLastGap) : gap.AtWordEnd := by
  cases isGap with
  | gap isGap => exact isGap.atWordEnd
  | @comment gap content isGap =>
    by_cases nothing : gap = []
    · subst nothing
      rintro c ⟨⟩
      decide
    · exact isGap.atWordEnd.append nothing _

theorem atWordEnd_symbol (command : Command) : AtWordEnd [command.symbol] := by
  rintro c ⟨⟩
  cases command with
  | act action => cases action <;> decide
  | jump | back => decide

/-- Behind a long name, what comes next is not taken for more of the name or for its arguments. -/
theorem Spells.atWordEnd {commands : List Command} (spells : text.Spells true commands) :
    text.AtWordEnd := by
  cases spells with
  | done isGap => exact isGap.atWordEnd
  | @symbol _ gap rest command _ isGap =>
    by_cases nothing : gap = []
    · subst nothing
      exact (atWordEnd_symbol command).append (by simp) rest
    · rw [List.append_assoc]
      exact isGap.atWordEnd.append nothing _
  | name isGap apart =>
    rw [List.append_assoc]
    exact isGap.atWordEnd.append (apart rfl) _

end Text

theorem Command.isCallName_name (command : Command) : IsCallName command.name.toList := by
  cases command with
  | act action => cases action <;> exact ⟨by decide, List.all_eq_true.mp (by decide)⟩
  | jump | back => exact ⟨by decide, List.all_eq_true.mp (by decide)⟩

/-- Whether a token is the symbol or the long name of a command. -/
def Token.Spells (t : Token) (command : Command) : Prop :=
  t.kind = .symbol ∧ t.value = [command.symbol] ∨
    t.kind = .word ∧ t.value = command.name.toList

namespace Span

variable {spans : List Span} {gap rest : Text} {command : Command} {commands : List Command}

/-- Spans that make no token. -/
structure Silent (rest : Text) (spans : List Span) : Prop where
  stand : Stand rest spans
  silent : ∀ before, tokens before spans = []

/-- Spans to the end of a text, whose tokens spell commands. -/
structure Spell (spans : List Span) (commands : List Command) : Prop where
  stand : Stand [] spans
  spelled : ∀ before, List.Forall₂ Token.Spells (tokens before spans) commands

theorem Silent.append {front back : List Span} (first : Silent (back.flatMap text ++ rest) front)
    (second : Silent rest back) : Silent rest (front ++ back) where
  stand := stand_append.mpr ⟨first.stand, second.stand⟩
  silent before := by rw [tokens_append, first.silent, second.silent, List.append_nil]

theorem stands_symbol (command : Command) (rest : Text) : (symbol command.symbol).Stands rest := by
  cases command with
  | act action => cases action <;> exact ⟨by decide, by decide, by decide, by decide⟩
  | jump | back => exact ⟨by decide, by decide, by decide, by decide⟩

theorem exists_silent (isGap : gap.IsGap) (rest : Text) :
    ∃ spans, gap = spans.flatMap text ∧ Silent rest spans := by
  induction isGap with
  | nil => exact ⟨[], rfl, trivial, fun _ => rfl⟩
  | @blank c _ listed _ ih =>
    obtain ⟨spans, rfl, others, silent⟩ := ih
    have stands : Lexer.isSkipped c = true := by
      simpa [Lexer.isSkipped, or_assoc] using listed
    exact ⟨skipped c :: spans, rfl, ⟨stands, others⟩, fun _ => silent _⟩
  | @comment content _ oneLine _ ih =>
    obtain ⟨spans, rfl, others, silent⟩ := ih
    have ends : Text.AtLineEnd ('\n' :: (spans.flatMap text ++ rest)) := by
      rintro c ⟨⟩
      rfl
    exact ⟨comment content :: skipped '\n' :: spans, rfl, ⟨⟨oneLine, ends⟩, rfl, others⟩,
      fun _ => silent _⟩

theorem exists_silent_last (isGap : gap.IsLastGap) :
    ∃ spans, gap = spans.flatMap text ∧ Silent [] spans := by
  cases isGap with
  | gap isGap => exact exists_silent isGap []
  | @comment gap content isGap oneLine =>
    have last : Silent [] [comment content] := ⟨⟨⟨oneLine, nofun⟩, trivial⟩, fun _ => rfl⟩
    obtain ⟨spans, rfl, silent⟩ := exists_silent isGap ([comment content].flatMap text ++ [])
    exact ⟨spans ++ [comment content], by simp [text], silent.append last⟩

/-- A command in front, with its gap. -/
theorem Spell.cons {span : Span} {spans : List Span} (spell : Spell spans commands)
    (stands : span.Stands (spans.flatMap text ++ []))
    (made : ∀ p, ∃ t, span.token? p = some t ∧ t.Spells command) (isGap : gap.IsGap) :
    ∃ all, gap ++ span.text ++ spans.flatMap text = all.flatMap text ∧
      Spell all (command :: commands) := by
  obtain ⟨front, rfl, stand, silent⟩ :=
    exists_silent isGap ((span :: spans).flatMap text ++ [])
  refine ⟨front ++ span :: spans, by simp, ?_, fun before => ?_⟩
  · exact stand_append.mpr ⟨stand, stands, spell.stand⟩
  · obtain ⟨t, token, spells⟩ := made (.behind (before ++ front.flatMap text))
    rw [tokens_append, silent, List.nil_append, tokens, token]
    exact .cons spells (spell.spelled _)

end Span

/-- A text that spells commands is made of spans that spell them. -/
theorem Text.Spells.exists_spans {afterName : Bool} {commands : List Command} {t : Text}
    (spells : t.Spells afterName commands) :
    ∃ spans, t = spans.flatMap Span.text ∧ Span.Spell spans commands := by
  induction spells with
  | done isGap =>
    obtain ⟨spans, same, stand, silent⟩ := Span.exists_silent_last isGap
    exact ⟨spans, same, stand, fun before => silent before ▸ .nil⟩
  | @symbol _ gap _ command _ isGap _ ih =>
    obtain ⟨spans, rfl, spell⟩ := ih
    exact spell.cons (Span.stands_symbol command _) (fun p => ⟨_, rfl, .inl ⟨rfl, rfl⟩⟩) isGap
  | @name _ gap _ command _ isGap _ later ih =>
    obtain ⟨spans, rfl, spell⟩ := ih
    have stands : (Span.word command.name.toList []).Stands (spans.flatMap Span.text ++ []) :=
      ⟨command.isCallName_name, .inr ⟨rfl, by simpa using later.atWordEnd⟩⟩
    obtain ⟨all, same, spelled⟩ := spell.cons stands
      (fun p => ⟨_, rfl, .inr ⟨rfl, List.append_nil command.name.toList⟩⟩) isGap
    exact ⟨all, by simpa [Span.text] using same, spelled⟩

/-- Tokens that spell commands expand to items that stand for them. -/
theorem Expansion.exists_expands_of_spells {source : Source} {budget : Nat} {chain : List Text}
    {origin : Option Location} {tokens : List Token} {ending : Token} {commands : List Command}
    (spelled : List.Forall₂ Token.Spells tokens commands) (ends : ending.kind = .endOfText) :
    ∃ items, Expands source budget chain origin (tokens ++ [ending]) {} items {} ∧
      List.Forall₂ LoopBinder.Spells items (commands.map .command) := by
  induction spelled with
  | nil => exact ⟨[], .endOfText ends, .nil⟩
  | @cons token command rest commands first _ ih =>
    obtain ⟨items, expands, others⟩ := ih
    rcases first with ⟨kind, value⟩ | ⟨kind, value⟩
    · refine ⟨_, .symbol kind expands, .cons ⟨source.place origin token, ?_⟩ others⟩
      simp [Item.instruction, Instruction.ofText, value, Command.ofText?_symbol]
    · have split : splitCall? token.value = some (command.name.toList, none) := by
        rw [value, splitCall?_name command.isCallName_name]
      refine ⟨_, .plainWord kind split rfl expands, .cons ⟨source.place origin token, ?_⟩ others⟩
      simp [Item.instruction, Instruction.ofText, Command.ofText?_name]

/-- A text that spells commands lexes, and expands to items that stand for the commands. -/
theorem Text.Spells.exists_expands {commands : List Command} {t : Text}
    (spells : t.Spells false commands) (file : Text) (source : Source) :
    ∃ tokens items, tokenize file t = .ok tokens ∧
      Expansion.Expands source source.limit.toNat [] none tokens {} items {} ∧
      List.Forall₂ LoopBinder.Spells items (commands.map .command) := by
  obtain ⟨spans, rfl, spell⟩ := spells.exists_spans
  have ends : (Lexer.token .endOfText [] (.behind (spans.flatMap Span.text))).kind = .endOfText :=
    rfl
  obtain ⟨items, expands, stand⟩ := Expansion.exists_expands_of_spells (spell.spelled []) ends
  exact ⟨_, items, tokenize_of_stand spell.stand file, expands, stand⟩

/-- The symbols alone spell commands. -/
theorem Text.spells_symbols (commands : List Command) :
    Text.Spells false commands (commands.map Command.symbol) := by
  induction commands with
  | nil => exact .done (.gap .nil)
  | cons command commands ih => exact .symbol .nil ih

namespace Program

variable {commands : List Command} {file text : Text} {limit : Int}

theorem ofText_eq_outcome {tokens : List Token} (lexed : tokenize file text = .ok tokens) :
    ofText file text limit = outcome (((Source.ofText file text limit).parse tokens).run {}) := by
  rw [ofText, lexed]
  rfl

theorem exists_ofText (balanced : Balanced (commands.map .command))
    (spells : text.Spells false commands) (file : Text) (limit : Int) :
    ∃ p, ofText file text limit = .ok p ∧ p.operations = commands.map .command := by
  obtain ⟨tokens, items, lexed, expands, stand⟩ :=
    spells.exists_expands file (.ofText file text limit)
  obtain ⟨p, parsed, operations⟩ := Source.exists_parse_of_openLoops expands stand balanced
  refine ⟨p, ?_, operations⟩
  rw [ofText_eq_outcome lexed, parsed]
  rfl

/-- The commands of a program are read as its instructions, in any layout. -/
theorem exists_ofText_unplaced {p : Program} {file' text' : Text} {limit' : Int}
    (read : ofText file' text' limit' = .ok p) (operations : p.operations = commands.map .command)
    (spells : text.Spells false commands) (file : Text) (limit : Int) :
    ∃ q, ofText file text limit = .ok q ∧ q.definitions = {} ∧
      q.instructions.map Instruction.unplaced = p.instructions.map Instruction.unplaced := by
  obtain ⟨tokens, items, lexed, expands, stand⟩ :=
    spells.exists_expands file (.ofText file text limit)
  obtain ⟨_, _, parsed⟩ := ofText_eq_ok_iff.mp read
  rw [← operations] at stand
  obtain ⟨q, again, same⟩ := Source.exists_parse_of_spells parsed expands stand
  refine ⟨q, ?_, Source.definitions_eq again, same⟩
  rw [ofText_eq_outcome lexed, again]
  rfl

theorem exists_ofText_error (unbalanced : ¬ Balanced (commands.map .command))
    (spells : text.Spells false commands) (file : Text) (limit : Int) :
    ∃ e, ofText file text limit = .error e ∧
      e.fault = .unbalancedLoop (unmatched (commands.map .command)) := by
  obtain ⟨tokens, items, lexed, expands, stand⟩ :=
    spells.exists_expands file (.ofText file text limit)
  obtain ⟨e, left, failed, fault⟩ :=
    Source.exists_parse_of_not_balanced expands stand unbalanced
  refine ⟨e, ?_, fault⟩
  rw [ofText_eq_outcome lexed, failed]
  rfl

theorem operations_of_unplaced {p q : Program}
    (same : q.instructions.map Instruction.unplaced = p.instructions.map Instruction.unplaced) :
    q.operations = p.operations := by
  have ops := congrArg (fun code => code.toList.map (·.op)) same
  simp only [Array.toList_map, List.map_map] at ops
  exact ops

/-- The layout of a text does not show in its program. Commands whose brackets are balanced are read
as the same instructions from every text that spells them, and otherwise every text that spells them
is refused for a bracket without partner. -/
theorem ofText_of_spells (commands : List Command) :
    (Balanced (commands.map .command) → ∃ code : List Instruction, ∀ file text limit,
      Text.Spells false commands text → ∃ p, ofText file text limit = .ok p ∧
        p.operations = commands.map .command ∧ p.size = commands.length ∧ p.definitions = {} ∧
        p.instructions.toList.map Instruction.unplaced = code) ∧
    (¬ Balanced (commands.map .command) → ∀ file text limit,
      Text.Spells false commands text → ∃ e, ofText file text limit = .error e ∧
        e.fault = .unbalancedLoop (unmatched (commands.map .command))) := by
  refine ⟨fun balanced => ?_, fun unbalanced file text limit spells =>
    exists_ofText_error unbalanced spells file limit⟩
  obtain ⟨p, read, operations⟩ :=
    exists_ofText balanced (Text.spells_symbols commands) [] 0
  refine ⟨p.instructions.toList.map Instruction.unplaced, fun file text limit spells => ?_⟩
  obtain ⟨q, again, undefined, same⟩ :=
    exists_ofText_unplaced read operations spells file limit
  have made : q.operations = commands.map .command :=
    (operations_of_unplaced same).trans operations
  have size : q.size = commands.length := by
    simpa [size, Program.operations] using congrArg List.length made
  exact ⟨q, again, made, size, undefined, by simpa using congrArg Array.toList same⟩

/-- A loop whose commands touch each other and a comment, and a comment that ends the text. -/
def looseLayout : Text := "[INCR#]($\n\tDECR]OUT #+".toList

def looseCommands : List Command :=
  [.jump, .act .increment, .act .decrement, .back, .act .output]

theorem spells_looseLayout : looseLayout.Spells false looseCommands :=
  .symbol .nil <|
  .name .nil nofun <|
  @Text.Spells.name _ "#]($\n\t".toList _ _ _
    (@Text.IsGap.comment "]($".toList _ (by decide) (.blank (by decide) .nil)) (by decide) <|
  .symbol .nil <|
  .name .nil nofun <|
  .done (@Text.IsLastGap.comment [' '] ['+'] (.blank (by decide) .nil) (by decide))

/-- The loop in this layout, and a bracket that closes nothing. -/
theorem ofText_of_spells_examples :
    (looseLayout.Spells false looseCommands ∧ ∃ p, ofText [] looseLayout 64 = .ok p ∧
      p.operations = looseCommands.map .command ∧ p.size = 5) ∧
    (Text.Spells false [.back] "BACK\n".toList ∧ ∃ e, ofText [] "BACK\n".toList 64 = .error e ∧
      e.fault = .unbalancedLoop .closing) := by
  have closing : Text.Spells false [.back] "BACK\n".toList :=
    @Text.Spells.name _ [] _ _ _ .nil nofun (.done (.gap (.blank (by decide) .nil)))
  have balanced : Balanced (looseCommands.map .command) := rfl
  obtain ⟨code, reads⟩ := (ofText_of_spells looseCommands).1 balanced
  obtain ⟨p, read, operations, size, -, -⟩ := reads [] looseLayout 64 spells_looseLayout
  have unbalanced : ¬ Balanced ([.back].map .command) := nofun
  exact ⟨⟨spells_looseLayout, p, read, operations, size⟩, closing,
    (ofText_of_spells [.back]).2 unbalanced [] _ 64 closing⟩

end Program
end TapeLang
