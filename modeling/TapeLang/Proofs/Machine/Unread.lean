import TapeLang.Proofs.Machine.Compiled
import TapeLang.Proofs.Machine.Invariant

/-! Texts that cannot be read. Reading a text declares as it goes, on a copy of the definitions
that the machine takes over with the whole text or not at all. So a text that fails to be read is
no event in a session: nothing that follows can tell whether it was handed in. -/
namespace TapeLang.Interpreter

variable {i : Interpreter} {m : Machine} {file text : Text} {e : SourceError}

/-- What a session answers to its requests. -/
def answers (i : Interpreter) : List Request → Machine → List (Except Fault Answer)
  | [], _ => []
  | request :: rest, m =>
    outcome ((i.answer request).run m) ::
      i.answers rest (endState ((i.answer request).run m))

theorem after_append (first second : List Request) (m : Machine) :
    i.after (first ++ second) m = i.after second (i.after first m) :=
  List.foldl_append

theorem answers_append (first second : List Request) (m : Machine) :
    i.answers (first ++ second) m = i.answers first m ++ i.answers second (i.after first m) := by
  induction first generalizing m with
  | nil => rfl
  | cons request rest ih => exact congrArg _ (ih _)

/-- A text is not read if it does not split into tokens, or if reading these fails, whatever they
declared by then. -/
theorem readText_eq_error_iff {dictionary : Dictionary} :
    i.readText file text dictionary = .error e ↔
      tokenize file text = .error e ∨ ∃ tokens left, tokenize file text = .ok tokens ∧
        ((i.sourceOf file text).parse tokens).run dictionary = .error e left := by
  cases lexed : tokenize file text with
  | error e' => simp [readText, lexed, Bind.bind, Except.bind]
  | ok tokens =>
    rw [readText_of_tokenize lexed]
    cases parsed : ((i.sourceOf file text).parse tokens).run dictionary <;>
      simp [outcome, parsed]

theorem run_answer_unread (unread : i.readText file text m.definitions = .error e) (fuel : Nat) :
    (i.answer (.evaluate fuel file text)).run m = .error (.source e) m := by
  have failed : (i.evaluate fuel file text).run m = .error (.source e) m := by
    rw [evaluate_eq, unread]
  exact run_bind_of_error failed _

/-- What a text declares that is read is kept, even if its program fails. -/
theorem extends_of_readText {p : Program} (read : i.readText file text m.definitions = .ok p)
    (fuel : Nat) :
    (endState ((i.answer (.evaluate fuel file text)).run m)).definitions.Extends
      p.definitions := by
  have same : endState ((i.answer (.evaluate fuel file text)).run m) =
      endState ((i.evaluate fuel file text).run m) := endState_bind_pure _ _ m
  have told := i.learns_notify (.programParsed p.size) (m.holding p)
  rw [same, evaluate_eq, read]
  dsimp only
  cases notified : (i.notify (.programParsed p.size)).run (m.holding p) with
  | error fault u => exact (told.of_error notified).definitions
  | ok _ u =>
    have held : u.definitions.Extends p.definitions := (told.of_ok notified).definitions
    have executed := (i.grows_execute fuel (u.opened p)).definitions
    dsimp only
    cases ran : (i.execute fuel).run (u.opened p) <;> rw [ran] at executed <;>
      exact executed.trans held

/-- A text that cannot be read, wherever it fails and whatever it declared on the way, leaves the
machine as it was, at any point of a session. All other requests are answered, and the session
ends, as if it had not been handed in. -/
theorem after_unread (i : Interpreter) (before later : List Request) (input : List Int)
    (fuel : Nat)
    (unread : i.readText file text (i.after before (i.start input)).definitions = .error e) :
    let m := i.after before (i.start input)
    let request := Request.evaluate fuel file text
    (i.answer request).run m = .error (.source e) m ∧
    i.after (before ++ request :: later) (i.start input) =
      i.after (before ++ later) (i.start input) ∧
    i.answers (before ++ request :: later) (i.start input) =
      i.answers before (i.start input) ++ .error (.source e) :: i.answers later m ∧
    i.answers (before ++ later) (i.start input) =
      i.answers before (i.start input) ++ i.answers later m := by
  intro m request
  have failed : (i.answer request).run m = .error (.source e) m := run_answer_unread unread fuel
  have skipped : i.after (request :: later) m = i.after later m := by
    change i.after later (endState ((i.answer request).run m)) = _
    rw [failed]
    rfl
  have answered : i.answers (request :: later) m = .error (.source e) :: i.answers later m := by
    rw [answers, failed]
    rfl
  refine ⟨failed, ?_, ?_, answers_append _ _ _⟩
  · rw [after_append, after_append]
    exact skipped
  · rw [answers_append]
    exact congrArg _ answered

/-- A text whose macro declares another one where it is used, and which leaves a loop open. -/
def halfRead : Text := "$d = $n = +\nd [".toList

/-- The macro was declared while the text was read, and can be declared anew behind it. -/
theorem after_unread_halfRead : ∃ e tokens left,
    let before := [Request.evaluate 9 [] "§h = +".toList]
    let later := [Request.evaluate 9 [] "$n = -\n+ n h".toList]
    let m := scratch.after before (scratch.start [])
    tokenize [] halfRead = .ok tokens ∧
    ((scratch.sourceOf [] halfRead).parse tokens).run m.definitions = .error e left ∧
    (left.find? "n".toList).isSome ∧ m.definitions.find? "n".toList = none ∧
    (scratch.answer (.evaluate 9 [] halfRead)).run m = .error (.source e) m ∧
    scratch.after (before ++ .evaluate 9 [] halfRead :: later) (scratch.start []) =
      scratch.after (before ++ later) (scratch.start []) ∧
    scratch.answers later m = [.ok (.evaluated 3 .finished)] := by
  let m := scratch.after [.evaluate 9 [] "§h = +".toList] (scratch.start [])
  have evaluated : (tokenize [] halfRead).toOption.map (fun tokens =>
      let read := ((scratch.sourceOf [] halfRead).parse tokens).run m.definitions
      ((failure? read).isSome, ((endState read).find? "n".toList).isSome)) = some (true, true) := by
    decide +kernel
  cases lexed : tokenize [] halfRead with
  | error e => rw [lexed] at evaluated; cases evaluated
  | ok tokens =>
    rw [lexed] at evaluated
    obtain ⟨failed, declared⟩ := Prod.mk.inj (Option.some.inj evaluated)
    cases parsed : ((scratch.sourceOf [] halfRead).parse tokens).run m.definitions with
    | ok p left => rw [parsed] at failed; cases failed
    | error e left =>
      rw [parsed] at declared
      have unread : scratch.readText [] halfRead m.definitions = .error e :=
        readText_eq_error_iff.mpr (.inr ⟨tokens, left, lexed, parsed⟩)
      obtain ⟨failed, same, -, -⟩ := after_unread scratch _
        [Request.evaluate 9 [] "$n = -\n+ n h".toList] [] 9 unread
      exact ⟨e, tokens, left, rfl, parsed, declared, by decide +kernel, failed, same,
        by decide +kernel⟩

end TapeLang.Interpreter
