import TapeLang.Console.Interactive
import TapeLang.Proofs.Machine.OpenLoops

/-! The waiting lines of the interactive console. Lines wait as long as their text leaves a loop
open, and nothing is done with them until it is closed. But they wait as well where the text was
executed up to a call of a function whose body leaves a loop open: then what was done stays done,
and the next line has the same text executed once more. -/
namespace TapeLang.Console.Interactive

variable {fuel : Nat} {line : Text}

/-- What a line of a session does, the prompt before it included. -/
def take (fuel : Nat) (cs : Interactive × Screen) (line : Text) : Interactive × Screen :=
  (cs.1.showPrompt cs.2).1.feed fuel (cs.1.showPrompt cs.2).2 line

theorem interpreter_conclude (c : Interactive) (s : Screen)
    (result : EStateM.Result Fault Machine (Program × Interpreter.Ending)) :
    (c.conclude s result).1.interpreter = c.interpreter := by
  unfold conclude
  split
  · rfl
  · dsimp only
    split
    · split <;> rfl
    · rfl
    · rfl

/-- Only the error of an open loop keeps the lines. -/
theorem conclude_cases (c : Interactive) (s : Screen)
    (result : EStateM.Result Fault Machine (Program × Interpreter.Ending)) :
    (c.conclude s result).1.buffer = [] ∨
      (c.conclude s result).1.buffer = c.buffer ∧
        ∃ fault, result = .error fault (c.conclude s result).1.machine ∧ fault.IsOpenLoop := by
  unfold conclude
  split
  · exact .inl rfl
  · dsimp only
    split
    · rename_i e
      by_cases keeps : e.fault = .unbalancedLoop .opening && !c.buffer.isEmpty
      · rw [if_pos keeps]
        simp only [Bool.and_eq_true, decide_eq_true_eq] at keeps
        exact .inr ⟨rfl, .source e, rfl, keeps.1⟩
      · rw [if_neg keeps]
        exact .inl rfl
    · exact .inl rfl
    · exact .inl rfl

theorem interpreter_take (fuel : Nat) (cs : Interactive × Screen) (line : Text) :
    (take fuel cs line).1.interpreter = cs.1.interpreter := by
  unfold take feed
  dsimp only
  split
  · rfl
  · rw [interpreter_conclude]
    rfl

/-- Behind a line nothing waits, or the line waits with those before it because executing their
text failed for an open loop. -/
theorem take_cases (fuel : Nat) (cs : Interactive × Screen) (line : Text) :
    (take fuel cs line).1.buffer = [] ∨
      (take fuel cs line).1.buffer = cs.1.buffer ++ [line] ∧
        ∃ fault, (cs.1.interpreter.evaluate fuel interactiveFile
            (Text.join ['\n'] (cs.1.buffer ++ [line]))).run cs.1.machine =
          .error fault (take fuel cs line).1.machine ∧ fault.IsOpenLoop := by
  unfold take
  -- the prompt touches neither what waits nor the machine
  obtain ⟨c, s, prompted⟩ : ∃ c s, cs.1.showPrompt cs.2 = (c, s) := ⟨_, _, rfl⟩
  obtain rfl : c = { cs.1 with midLine := false } := (congrArg Prod.fst prompted).symm
  rw [prompted]
  unfold feed
  cases blank : Text.isBlankText line with
  | false =>
    exact conclude_cases { cs.1 with buffer := cs.1.buffer ++ [line], midLine := false } s _
  | true =>
    left
    by_cases empty : cs.1.buffer = []
    · simp [empty]
    · rcases conclude_cases { cs.1 with buffer := [], midLine := false } s
        ((cs.1.interpreter.evaluate fuel interactiveFile (Text.join ['\n'] cs.1.buffer)).run
          cs.1.machine) with cleared | ⟨cleared, -⟩ <;> simpa [empty] using cleared

/-- The text of the lines that wait. -/
def text (c : Interactive) : Text :=
  Text.join ['\n'] c.buffer

/-- A line whose text leaves a loop open waits, and the machine is as it was. -/
theorem take_of_leavesOpen {cs : Interactive × Screen} (fuel : Nat)
    (filled : Text.isBlankText line = false)
    (leaves : cs.1.interpreter.LeavesOpen interactiveFile
      (Text.join ['\n'] (cs.1.buffer ++ [line])) cs.1.machine.definitions) :
    (take fuel cs line).1.buffer = cs.1.buffer ++ [line] ∧
      (take fuel cs line).1.machine = cs.1.machine := by
  obtain ⟨e, read, opening⟩ := Interpreter.leavesOpen_iff.mp leaves
  simp [take, showPrompt, feed, filled, Interpreter.evaluate_eq, read, conclude, opening]

/-- A line has joined those that wait. Their text leaves a loop open, and the machine is as it
was; or it was executed up to a call of a function whose body leaves a loop open, and what it
did stays done. -/
structure Waits (c : Interactive) (line : Text) (after : Interactive) : Prop where
  joined : after.buffer = c.buffer ++ [line]
  cause :
    (c.interpreter.LeavesOpen interactiveFile after.text c.machine.definitions ∧
        after.machine = c.machine) ∨
      (c.interpreter.MeetsOpenBody interactiveFile after.text c.machine ∧
        c.machine.counters.programSize < after.machine.counters.programSize)

/-- Lines wait for no other reason, unless a handler raises the error of an open loop. -/
theorem waits_of_take {cs : Interactive × Screen} (discreet : cs.1.interpreter.IsDiscreet)
    (kept : (take fuel cs line).1.buffer ≠ []) : Waits cs.1 line (take fuel cs line).1 := by
  rcases take_cases fuel cs line with cleared | ⟨joined, fault, failed, opening⟩
  · exact absurd cleared kept
  · constructor
    · exact joined
    · have causes := discreet.evaluate failed opening
      rwa [← joined] at causes

/-- The console and what it has shown before line `j` of a session. -/
def before (fuel : Nat) (cs : Interactive × Screen) (lines : List Text) (j : Nat) :
    Interactive × Screen :=
  (lines.take j).foldl (take fuel) cs

/-- A session takes its lines in turn and shows the last prompt. -/
theorem session_eq (fuel : Nat) (lines : List Text) (cs : Interactive × Screen) :
    session fuel lines cs =
      let last := before fuel cs lines lines.length
      ((last.1.showPrompt last.2).1, (last.1.showPrompt last.2).2.print ['\n']) := by
  unfold before
  rw [List.take_length]
  induction lines generalizing cs with
  | nil => rfl
  | cons line rest ih => exact ih _

section

variable {cs : Interactive × Screen} {lines : List Text} {j k : Nat}

theorem before_succ (fuel : Nat) (cs : Interactive × Screen) (inside : j < lines.length) :
    before fuel cs lines (j + 1) = take fuel (before fuel cs lines j) lines[j] := by
  unfold before
  rw [List.take_add_one, List.getElem?_eq_getElem inside, List.foldl_append]
  rfl

theorem interpreter_before (fuel : Nat) (cs : Interactive × Screen) (lines : List Text)
    (j : Nat) : (before fuel cs lines j).1.interpreter = cs.1.interpreter := by
  unfold before
  induction lines.take j generalizing cs with
  | nil => rfl
  | cons line rest ih => exact (ih _).trans (interpreter_take fuel cs line)

/-- What waits are the last lines that were taken. -/
theorem buffer_before (fresh : cs.1.buffer = []) (j : Nat) :
    (before fuel cs lines j).1.buffer <:+ lines.take j := by
  induction j with
  | zero => simp [before, fresh]
  | succ j ih =>
    by_cases inside : j < lines.length
    · rw [before_succ fuel cs inside, List.take_add_one, List.getElem?_eq_getElem inside]
      rcases take_cases fuel (before fuel cs lines j) lines[j] with cleared | ⟨joined, -⟩
      · rw [cleared]
        exact List.nil_suffix
      · rw [joined]
        obtain ⟨front, same⟩ := ih
        refine ⟨front, ?_⟩
        rw [← same]
        simp
    · have beyond := Nat.le_of_not_lt inside
      rw [before, List.take_of_length_le (Nat.le_succ_of_le beyond)]
      rwa [before, List.take_of_length_le beyond] at ih

/-- A line adds itself at most to what waits. -/
theorem length_buffer_before (cleared : (before fuel cs lines k).1.buffer = []) (later : k ≤ j) :
    (before fuel cs lines j).1.buffer.length ≤ j - k := by
  have same : before fuel cs lines j =
      before fuel (before fuel cs lines k) (lines.drop k) (j - k) := by
    rw [before, before, before, ← List.foldl_append, ← List.take_add]
    congr 2
    omega
  rw [same]
  exact Nat.le_trans (buffer_before cleared _).length_le (List.length_take_le ..)

/-- The text that is executed at line `j` has line `k` in it. -/
def Tries (fuel : Nat) (cs : Interactive × Screen) (lines : List Text) (k j : Nat) : Prop :=
  j < lines.length ∧ k ≤ j ∧ j ≤ k + (before fuel cs lines j).1.buffer.length

/-- Between two executions of a line the lines wait all the time. -/
theorem Tries.kept {j' : Nat} (tries : Tries fuel cs lines k j)
    (again : Tries fuel cs lines k j') (later : j < j') :
    (before fuel cs lines (j + 1)).1.buffer ≠ [] := by
  intro cleared
  have few := length_buffer_before cleared later
  obtain ⟨-, reached, -⟩ := tries
  obtain ⟨-, -, waiting⟩ := again
  omega

end

/-- Lines of a session wait where their text leaves a loop open, and then nothing is done with
them, or where executing it met a call of a function whose body leaves a loop open. A line with
which the latter never happens changes the machine at most once. -/
theorem session_waits (fuel : Nat) (c : Interactive) (s : Screen) (lines : List Text)
    (discreet : c.interpreter.IsDiscreet) (fresh : c.buffer = []) :
    let console := fun j => (before fuel (c, s) lines j).1
    (session fuel lines (c, s)).1.machine = (console lines.length).machine ∧
    (∀ j, (console j).buffer <:+ lines.take j) ∧
    (∀ j (inside : j < lines.length), (console (j + 1)).buffer ≠ [] →
      Waits (console j) lines[j] (console (j + 1))) ∧
    (∀ j (inside : j < lines.length), Text.isBlankText lines[j] = false →
      c.interpreter.LeavesOpen interactiveFile
        (Text.join ['\n'] ((console j).buffer ++ [lines[j]])) (console j).machine.definitions →
      (console (j + 1)).buffer = (console j).buffer ++ [lines[j]] ∧
        (console (j + 1)).machine = (console j).machine) ∧
    ∀ k, (∀ j, Tries fuel (c, s) lines k j → (console (j + 1)).buffer ≠ [] →
        ¬ c.interpreter.MeetsOpenBody interactiveFile (console (j + 1)).text (console j).machine) →
      ∀ j j', Tries fuel (c, s) lines k j → Tries fuel (c, s) lines k j' →
        (console (j + 1)).machine ≠ (console j).machine →
        (console (j' + 1)).machine ≠ (console j').machine → j = j' := by
  intro console
  have same (j : Nat) : (console j).interpreter = c.interpreter := interpreter_before ..
  have waits (j : Nat) (inside : j < lines.length) (kept : (console (j + 1)).buffer ≠ []) :
      Waits (console j) lines[j] (console (j + 1)) := by
    have next := before_succ fuel (c, s) inside
    have discreet : (console j).interpreter.IsDiscreet := (same j).symm ▸ discreet
    simp only [console, next] at kept ⊢
    exact waits_of_take discreet kept
  refine ⟨?_, buffer_before fresh, waits, ?_, ?_⟩
  · rw [session_eq]
    rfl
  · intro j inside filled leaves
    have next := before_succ fuel (c, s) inside
    rw [← same j] at leaves
    simp only [console, next]
    exact take_of_leavesOpen fuel filled leaves
  · intro k closed
    have unchanged {j j' : Nat} (tries : Tries fuel (c, s) lines k j)
        (again : Tries fuel (c, s) lines k j') (later : j < j') :
        (console (j + 1)).machine = (console j).machine := by
      have kept := tries.kept again later
      rcases (waits j tries.1 kept).cause with ⟨-, unchanged⟩ | ⟨met, -⟩
      · exact unchanged
      · rw [same] at met
        exact absurd met (closed j tries kept)
    intro j j' tries again acts acts'
    rcases Nat.lt_trichotomy j j' with earlier | equal | later
    · exact absurd (unchanged tries again earlier) acts
    · exact equal
    · exact absurd (unchanged again tries later) acts'

/-- A console at its start. -/
def started : Interactive :=
  let i : Interpreter := ⟨{ file := interactiveFile }, Interpreter.oneCell, {}⟩
  { interpreter := i, machine := i.start [] }

/-- A body that leaves a loop open, and a call of it behind an instruction. -/
def callingOpenBody : List Text := ["§f = [".toList, "+f".toList]

/-- The call waits, but the instruction is executed, and it will be with the next line. -/
theorem waiting_changes_machine : ¬ ∀ (fuel : Nat) (c : Interactive) (s : Screen)
    (lines : List Text) (j : Nat),
    c.buffer = [] → j < lines.length → (before fuel (c, s) lines (j + 1)).1.buffer ≠ [] →
    let m := (before fuel (c, s) lines j).1.machine
    let after := (before fuel (c, s) lines (j + 1)).1.machine
    after.tape = m.tape ∧ after.definitions = m.definitions ∧ after.counters = m.counters := by
  intro unchanged
  have evaluated :
      (before 9 (started, {}) callingOpenBody (1 + 1)).1.buffer ≠ [] ∧
        (before 9 (started, {}) callingOpenBody (1 + 1)).1.machine.counters ≠
          (before 9 (started, {}) callingOpenBody 1).1.machine.counters := by
    decide +kernel
  obtain ⟨waits, changed⟩ := evaluated
  have same := unchanged 9 started {} callingOpenBody 1 rfl (Nat.lt_add_one 1) waits
  exact changed same.2.2

/-- A loop over two lines. -/
def loopOfTwoLines : List Text := ["+[".toList, "-]".toList]

/-- The first line waits with nothing done, and the second one has both executed. -/
theorem session_waits_loop :
    (before 9 (started, {}) loopOfTwoLines 1).1.machine = started.machine ∧
    Tries 9 (started, {}) loopOfTwoLines 0 1 ∧
    (before 9 (started, {}) loopOfTwoLines (1 + 1)).1.machine.counters.steps = 4 ∧
    ∀ j, Tries 9 (started, {}) loopOfTwoLines 0 j →
      (before 9 (started, {}) loopOfTwoLines (j + 1)).1.machine ≠
        (before 9 (started, {}) loopOfTwoLines j).1.machine → j = 1 := by
  have bare : started.interpreter.IsBare := ⟨fun _ => rfl, rfl⟩
  have evaluated :
      (before 9 (started, {}) loopOfTwoLines 1).1.buffer = ["+[".toList] ∧
        (before 9 (started, {}) loopOfTwoLines 1).1.machine.counters = {} ∧
        (before 9 (started, {}) loopOfTwoLines (1 + 1)).1.buffer = [] ∧
        (before 9 (started, {}) loopOfTwoLines (1 + 1)).1.machine.counters.steps = 4 ∧
        (started.interpreter.readText interactiveFile "+[".toList {}).toOption.isSome = false := by
    decide +kernel
  obtain ⟨waiting, idle, done, steps, unread⟩ := evaluated
  obtain ⟨-, -, waits, -, once⟩ :=
    session_waits 9 started {} loopOfTwoLines bare.isDiscreet rfl
  have tries : Tries 9 (started, {}) loopOfTwoLines 0 1 := by
    refine ⟨Nat.lt_add_one 1, Nat.zero_le 1, ?_⟩
    rw [waiting]
    exact Nat.le_refl 1
  have unmet : ¬ started.interpreter.MeetsOpenBody interactiveFile "+[".toList started.machine := by
    rintro ⟨p, _, _, _, read, -⟩
    have read : started.interpreter.readText interactiveFile "+[".toList {} = .ok p := read
    rw [read] at unread
    cases unread
  have acts : (before 9 (started, {}) loopOfTwoLines (1 + 1)).1.machine ≠
      (before 9 (started, {}) loopOfTwoLines 1).1.machine := by
    intro same
    rw [same, idle] at steps
    cases steps
  refine ⟨?_, tries, steps, ?_⟩
  · have kept : (before 9 (started, {}) loopOfTwoLines (0 + 1)).1.buffer ≠ [] := by simp [waiting]
    rcases (waits 0 Nat.zero_lt_two kept).cause with ⟨-, same⟩ | ⟨-, grown⟩
    · exact same
    · rw [idle] at grown
      cases grown
  · intro j tries' acts'
    refine once 0 ?_ j 1 tries' tries acts' acts
    intro j tried kept
    have inside : j < 2 := tried.1
    obtain rfl | rfl : j = 0 ∨ j = 1 := by omega
    · rw [text, waiting]
      exact unmet
    · exact absurd done kept

end TapeLang.Console.Interactive
