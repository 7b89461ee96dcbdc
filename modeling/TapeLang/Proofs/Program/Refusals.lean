import TapeLang.Proofs.Expansion.Refusals
import TapeLang.Proofs.Program.LoopCount

/-! Where a program is refused. An open bracket is reported where it stands, and all else at the
token that it comes from, but for a body that does not lex: that error has no location, and tells of
a place in the body as if it were one in the file. -/
namespace TapeLang

/-- A count refuses what it is fed where that stands, and what is left open where it was opened. -/
theorem LoopCount.keeps (isPlace : Location → Prop) :
    Expansion.Reader.Keeps isPlace consume finish fun count => ∀ l ∈ count.pending, isPlace l where
  takes := by
    rintro ⟨loops, pending, calls⟩ item count inside here taken
    cases item with
    | call d args location =>
      cases taken
      exact inside
    | plain text location =>
      simp only [consume, Instruction.ofText] at taken
      cases found : Command.ofText? text with
      | none => rw [found] at taken; cases taken
      | some command =>
        rw [found] at taken
        cases command with
        | act action => cases taken; exact inside
        | jump => cases taken; exact List.forall_mem_cons.mpr ⟨here, inside⟩
        | back =>
          cases pending with
          | nil => cases taken
          | cons opened pending => cases taken; exact (List.forall_mem_cons.mp inside).2
  refuses := by
    rintro ⟨loops, pending, calls⟩ item e inside here refused
    cases item with
    | call d args location => cases refused
    | plain text location =>
      simp only [consume, Instruction.ofText] at refused
      cases found : Command.ofText? text with
      | none =>
        rw [found] at refused
        cases refused
        exact ⟨location, rfl, here, by simp⟩
      | some command =>
        rw [found] at refused
        cases command with
        | act action => cases refused
        | jump => cases refused
        | back =>
          cases pending with
          | nil => cases refused; exact ⟨location, rfl, here, by simp⟩
          | cons opened pending => cases refused
  concludes := by
    rintro ⟨loops, pending, calls⟩ e inside refused
    cases pending with
    | nil => cases refused
    | cons opened pending =>
      cases refused
      exact ⟨opened, rfl, (List.forall_mem_cons.mp inside).1, by simp⟩

namespace Source

variable {source : Source} {tokens : List Token} {before after : Dictionary} {e : SourceError}

/-- Where a reading that fails reports what is wrong. A location is that of a token before the end
of the text. There is none exactly when the error tells of arguments that are not closed, and then
it is the lexer's, for a text that some macro or procedure in force stands for. -/
theorem refused_at_token (failed : (source.parse tokens).run before = .error e after) :
    (∀ place, e.location = some place → source.IsTokenPlace tokens place) ∧
    (e.location = none ↔
      ∃ line column, e.fault = .unterminatedArguments source.file line column) ∧
    (e.location = none → ∃ d ∈ after.toList, d.kind ≠ .functionForm ∧
      ∃ args body, d.instantiate args = .ok body ∧ tokenize source.file body = .error e) := by
  have counted := run_ownLoops source tokens before
  rw [failed] at counted
  cases refusal_of_consumeAll (LoopCount.keeps _) (List.forall_mem_nil _) counted with
  | located located =>
    obtain ⟨place, placed, inside, outside⟩ := located
    refine ⟨?_, ⟨?_, ?_⟩, ?_⟩
    · intro place same
      rw [placed] at same
      cases same
      exact inside
    · intro unplaced
      rw [placed] at unplaced
      cases unplaced
    · rintro ⟨line, column, same⟩
      exact absurd same (outside _ _ _)
    · intro unplaced
      rw [placed] at unplaced
      cases unplaced
  | inBody found form made refused =>
    obtain ⟨line, column, rfl⟩ := tokenize_fails refused
    exact ⟨nofun, ⟨fun _ => ⟨line, column, rfl⟩, fun _ => rfl⟩,
      fun _ => ⟨_, List.mem_of_find?_eq_some found, form, _, _, made, refused⟩⟩

/-- How the reading of a text that lexes is refused. -/
theorem exists_refusal {text : Text} {limit : Int} {e : SourceError}
    (refused : ((tokenize [] text).toOption.bind fun tokens =>
      failure? (((ofText [] text limit).parse tokens).run {})) = some e) :
    ∃ tokens after, tokenize [] text = .ok tokens ∧
      ((ofText [] text limit).parse tokens).run {} = .error e after := by
  cases lexed : tokenize [] text with
  | error e' => rw [lexed] at refused; cases refused
  | ok tokens =>
    rw [lexed] at refused
    cases parsed : ((ofText [] text limit).parse tokens).run {} with
    | ok p after => simp [Except.toOption, parsed, failure?] at refused
    | error e' after =>
      simp only [Except.toOption, Option.bind_some, parsed, failure?, Option.some.injEq] at refused
      subst refused
      exact ⟨tokens, after, rfl, parsed⟩

/-- The text lexes, and the body of the macro that it calls does not. -/
def openArguments : Text := "$m = d(\nm".toList

/-- The error has no location. It tells of the start of the body, as of the start of the text, where
a sign stands that nothing is wrong with. -/
theorem openArguments_refused_nowhere :
    ∃ tokens after, tokenize [] openArguments = .ok tokens ∧
      ((ofText [] openArguments 64).parse tokens).run {} =
        .error ⟨.unterminatedArguments [] 1 1, none⟩ after :=
  exists_refusal (by decide +kernel)

/-- A bracket that is left open two expansions down, and the arguments in a body. -/
theorem refused_at_token_examples :
    (∃ tokens after, tokenize [] "$a = b\n$b = [\n+ a".toList = .ok tokens ∧
      ((ofText [] "$a = b\n$b = [\n+ a".toList 64).parse tokens).run {} =
        .error ⟨.unbalancedLoop .opening, some ⟨[], 3, 3, "+ a".toList⟩⟩ after ∧
      (ofText [] "$a = b\n$b = [\n+ a".toList 64).IsTokenPlace tokens
        ⟨[], 3, 3, "+ a".toList⟩) ∧
    ∃ tokens after, ((ofText [] openArguments 64).parse tokens).run {} =
        .error ⟨.unterminatedArguments [] 1 1, none⟩ after ∧
      ∃ d ∈ after.toList, d.kind ≠ .functionForm ∧ ∃ args body, d.instantiate args = .ok body ∧
        tokenize [] body = .error ⟨.unterminatedArguments [] 1 1, none⟩ := by
  have left : ∃ tokens after, tokenize [] "$a = b\n$b = [\n+ a".toList = .ok tokens ∧
      ((ofText [] "$a = b\n$b = [\n+ a".toList 64).parse tokens).run {} =
        .error ⟨.unbalancedLoop .opening, some ⟨[], 3, 3, "+ a".toList⟩⟩ after :=
    exists_refusal (by decide +kernel)
  have inside : ∃ tokens after, tokenize [] openArguments = .ok tokens ∧
      ((ofText [] openArguments 64).parse tokens).run {} =
        .error ⟨.unterminatedArguments [] 1 1, none⟩ after :=
    exists_refusal (by decide +kernel)
  constructor
  · obtain ⟨tokens, after, lexed, failed⟩ := left
    exact ⟨tokens, after, lexed, failed, (refused_at_token failed).1 _ rfl⟩
  · obtain ⟨tokens, after, -, failed⟩ := inside
    exact ⟨tokens, after, failed, (refused_at_token failed).2.2 rfl⟩

end Source
end TapeLang
