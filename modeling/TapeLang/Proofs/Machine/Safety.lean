import TapeLang.Proofs.Machine.Invariant

/-! Safety of machines without handlers. In every frame each bracket knows a partner in the same
list and each call a function in force with an argument for each parameter, and no cursor leaves
its list. Hence executions fail only at a bound or where a called body does not compile. -/
namespace TapeLang

/-- A bracket of a block has its partner in the block: an opening one ahead of it, a closing one
behind it. -/
theorem Laid.exists_partner {code : Array Instruction} {first stop : Nat} {block : List Statement}
    (laid : Laid code first block stop) {j : Nat} (low : first ≤ j) (high : j < stop)
    {instruction : Instruction} (found : code[j]? = some instruction)
    (bracket : instruction.op = .command .jump ∨ instruction.op = .command .back) :
    ∃ k < stop, instruction.partner = some k ∧
      (instruction.op = .command .jump ∧ j < k ∨ instruction.op = .command .back ∧ k < j) := by
  induction laid with
  | nil => omega
  | @act first stop rest i action here op rest ih =>
    rcases Nat.eq_or_lt_of_le low with rfl | later
    · cases here.symm.trans found
      simp [op] at bracket
    · exact ih later high
  | @call first stop rest i target args here op rest ih =>
    rcases Nat.eq_or_lt_of_le low with rfl | later
    · cases here.symm.trans found
      simp [op] at bracket
    · exact ih later high
  | @loop first last stop body rest i k opening jumps partner inner closing goesBack partner' outer
      ihBody ihRest =>
    have inside := inner.le
    have around := outer.le
    by_cases atOpening : j = first
    · subst atOpening
      cases opening.symm.trans found
      exact ⟨last, by omega, partner, .inl ⟨jumps, inside⟩⟩
    · by_cases atClosing : j = last
      · subst atClosing
        cases closing.symm.trans found
        exact ⟨first, by omega, partner', .inr ⟨goesBack, inside⟩⟩
      · by_cases within : j < last
        · obtain ⟨k, bound, same⟩ := ihBody (by omega) within
          exact ⟨k, by omega, same⟩
        · exact ihRest (by omega) high

/-- Brackets have their partners in the list, and calls name functions of the dictionary, with an
argument for each parameter. -/
structure CodeSafe (dictionary : Dictionary) (code : Array Instruction) : Prop where
  brackets : ∀ instruction ∈ code,
    instruction.op = .command .jump ∨ instruction.op = .command .back →
      ∃ k < code.size, instruction.partner = some k
  calls : ∀ instruction ∈ code, ∀ target args, instruction.op = .call target args →
    ∃ d, dictionary.find? target = some d ∧ d.kind = .functionForm ∧
      args.length = d.params.length

theorem CodeSafe.extends {before after : Dictionary} {code : Array Instruction}
    (safe : CodeSafe before code) (extended : after.Extends before) : CodeSafe after code := by
  constructor
  · exact safe.brackets
  · intro instruction member target args op
    obtain ⟨d, found, form, arity⟩ := safe.calls instruction member target args op
    exact ⟨d, Dictionary.find?_extends extended found, form, arity⟩

/-- What is read is safe. -/
theorem Source.codeSafe {source : Source} {tokens : List Token} {before after : Dictionary}
    {p : Program} (parsed : (source.parse tokens).run before = .ok p after) :
    CodeSafe after p.instructions := by
  constructor
  · intro instruction member bracket
    obtain ⟨j, inside, rfl⟩ := Array.mem_iff_getElem.mp member
    obtain ⟨k, bound, partner, -⟩ := (laid_block parsed).exists_partner (Nat.zero_le j) inside
      (Array.getElem?_eq_getElem inside) bracket
    exact ⟨k, bound, partner⟩
  · intro instruction member target args op
    apply resolves parsed
    rw [← op]
    exact List.mem_map_of_mem (Array.mem_toList_iff.mpr member)

structure Frame.Safe (dictionary : Dictionary) (frame : Frame) : Prop
    extends CodeSafe dictionary frame.code where
  cursor : frame.cursor ≤ frame.code.size

/-- Every frame of the machine is safe under the definitions in force. -/
def Machine.Safe (m : Machine) : Prop := ∀ frame ∈ m.stack, frame.Safe m.definitions

theorem Machine.Safe.definitions {m m' : Machine} (safe : m.Safe) (stack : m'.stack = m.stack)
    (extended : m'.definitions.Extends m.definitions) : m'.Safe := by
  intro frame member
  rw [stack] at member
  have before := safe frame member
  exact ⟨before.toCodeSafe.extends extended, before.cursor⟩

namespace Interpreter

variable {i : Interpreter} {m m' u : Machine} {cursor : Nat} {instruction : Instruction}
variable {effect : Effect}

theorem CompiledBefore.codeSafe {c : Call} {p : Program} {dictionary : Dictionary}
    (compiled : i.CompiledBefore c p dictionary) : CodeSafe dictionary p.instructions := by
  obtain ⟨before, gave, extended⟩ := compiled
  obtain ⟨source, tokens, parsed⟩ := Dictionary.exists_parse gave
  exact (Source.codeSafe parsed).extends extended

/-- An instruction of safe code moves the cursor within the code or to its end. -/
theorem Stepped.cursor_le (stepped : i.Stepped m cursor instruction effect u)
    {dictionary : Dictionary} {code : Array Instruction} (safe : CodeSafe dictionary code)
    (found : code[cursor]? = some instruction) : effect.cursor ≤ code.size := by
  obtain ⟨inside, rfl⟩ := Array.getElem?_eq_some_iff.mp found
  have member : code[cursor] ∈ code := Array.getElem_mem inside
  cases stepped with
  | act | call => exact inside
  | jump op =>
    obtain ⟨k, bound, partner⟩ := safe.brackets _ member (.inl op)
    simp only [partner, Option.getD_some]
    split <;> omega
  | back op =>
    obtain ⟨k, bound, partner⟩ := safe.brackets _ member (.inr op)
    simp only [partner, Option.getD_some]
    split <;> omega

/-- The frame that a step opens is safe. -/
theorem Stepped.callee_safe (stepped : i.Stepped m cursor instruction effect u)
    (cached : i.Cached u) : ∀ callee ∈ effect.callee, callee.Safe u.definitions := by
  intro callee opened
  cases stepped with
  | act | jump | back => cases opened
  | call _ _ ran =>
    cases opened
    have compiled := find?_of_bodyOf ran
    exact ⟨(cached _ _ compiled).codeSafe, Nat.zero_le _⟩

/-- Machines stay safe as long as their compiled calls are what compiling them gave. -/
theorem invariant_safe (bare : i.IsBare) :
    i.Invariant fun m => i.Cached m ∧ m.Safe := by
  constructor
  · intro m
    exact ⟨cached_reset m, nofun⟩
  · rintro m m' learns ⟨cached, safe⟩
    exact ⟨cached.grows learns.toGrows, safe.definitions learns.stack learns.definitions⟩
  · rintro m p source tokens parsed ⟨cached, -⟩
    refine ⟨cached.grows (grows_entering parsed), ?_⟩
    rintro frame (_ | ⟨_, ⟨⟩⟩)
    exact ⟨Source.codeSafe parsed, Nat.zero_le _⟩
  · rintro m m' turn ⟨cached, safe⟩
    obtain ⟨frame, rest, stack, ⟨-, rfl⟩ | ⟨instruction, effect, u, found, stepped, rfl⟩⟩ :=
      bare.turn_cases turn
    · refine ⟨cached, ?_⟩
      intro other member
      exact safe other (stack ▸ List.mem_cons_of_mem _ member)
    · have cached := cached.grows stepped.learns.toGrows
      have safe := safe.definitions stepped.learns.stack stepped.learns.definitions
      have here : frame.Safe u.definitions :=
        safe frame (by rw [stepped.learns.stack, stack]; exact List.mem_cons_self)
      refine ⟨cached, ?_⟩
      intro other member
      rcases List.mem_append.mp member with opened | _ | ⟨_, behind⟩
      · exact stepped.callee_safe cached other (Option.mem_toList.mp opened)
      · exact ⟨here.toCodeSafe, stepped.cursor_le here.toCodeSafe found⟩
      · apply safe other
        rw [stepped.learns.stack, stack]
        exact List.mem_cons_of_mem _ behind

/-- The errors that break a bound: of the tape, of a value or of the depth of calls. -/
def BreaksBound (fault : Fault) : Prop :=
  ∃ e, fault = .runtime e ∧ e.fault.kind ∈ [.tapeBound, .valueBound, .callDepth]

theorem breaksBound_placed {fault : Fault} (breaks : BreaksBound fault) (op : Operation)
    (location : Option Location) (w : World) : BreaksBound (fault.placed op location w) := by
  obtain ⟨e, rfl, bound⟩ := breaks
  exact ⟨_, rfl, bound⟩

/-- The innermost frame of a machine stands at a call, which does not compile. -/
def AtUncompilable (i : Interpreter) (e : SourceError) (m : Machine) : Prop :=
  ∃ frame rest instruction target args, ∃ before : Dictionary,
    m.stack = frame :: rest ∧ frame.code[frame.cursor]? = some instruction ∧
    instruction.op = .call target args ∧
    before.compile i.setup.expansionLimit ⟨target, args⟩ = .error e m.definitions

/-- A safe machine fails at a bound or at a call that does not compile. -/
theorem IsBare.fails_of_safe (bare : i.IsBare)
    (accepting : ∀ taken byte, i.setup.refuses taken byte = none) (safe : m.Safe) {fault : Fault}
    (fails : i.Fails m fault u) :
    BreaksBound fault ∨ ∃ e, fault = .source e ∧ i.AtUncompilable e u := by
  obtain ⟨frame, rest, instruction, raised, stack, found, refused, rfl⟩ := bare.fails_cases fails
  have same := refused.learns.stack.trans stack
  cases refused with
  | act _ acted =>
    left
    apply breaksBound_placed
    obtain ⟨reason, rfl, kind⟩ := act_violates accepting acted
    refine ⟨_, rfl, ?_⟩
    simp only [List.mem_cons, List.not_mem_nil, or_false] at kind ⊢
    exact kind.imp_right .inl
  | depth =>
    left
    apply breaksBound_placed
    exact ⟨_, rfl, by simp [RuntimeFault.kind]⟩
  | @body target args _ _ op _ ran =>
    rcases bodyOf_fails ran with ⟨absent, -, -⟩ | ⟨e, left, compiled, rfl, rfl⟩
    · -- safe code calls functions in force only
      have here := safe frame (stack ▸ List.mem_cons_self)
      have member : instruction ∈ frame.code := Array.mem_of_getElem? found
      obtain ⟨d, named, form, -⟩ := here.calls instruction member target args op
      exact absurd form (absent d named)
    · exact .inr ⟨e, rfl, frame, rest, instruction, target, args, m.definitions, same, found, op,
        compiled⟩

/-- After any requests and between any two steps of an execution every frame is safe. Executions
fail only at a bound, with a program that cannot be read, or at a call whose body does not
compile. -/
theorem safe_after (bare : i.IsBare)
    (accepting : ∀ taken byte, i.setup.refuses taken byte = none) (history : List Request)
    (input : List Int) :
    let m := i.after history (i.start input)
    m.Safe ∧
    (∀ request start n v, i.entered? m request = some start → i.Turns n start v → v.Safe) ∧
    ∀ request fault u, request.executes = true → (i.answer request).run m = .error fault u →
      BreaksBound fault ∨
        ∃ e, fault = .source e ∧ (i.entered? m request = none ∨ i.AtUncompilable e u) := by
  intro m
  have holds := (i.invariant_safe bare).after bare accepting history input
  have between (request : Request) (start : Machine) (n : Nat) (v : Machine)
      (entered : i.entered? m request = some start) (turns : i.Turns n start v) : v.Safe :=
    ((i.invariant_safe bare).turns turns ((i.invariant_safe bare).entered entered holds)).2
  refine ⟨holds.2, between, ?_⟩
  intro request fault u executes failed
  cases entered : i.entered? m request with
  | none =>
    obtain ⟨e, v, unread, -⟩ := bare.unread executes entered
    cases failed.symm.trans unread
    exact .inr ⟨e, rfl, .inl rfl⟩
  | some start =>
    rcases bare.executes accepting entered with
      ⟨_, _, _, _, ran, -⟩ | ⟨_, _, n, v, ran, turns, fails⟩
    · cases failed.symm.trans ran
    · cases failed.symm.trans ran
      rcases bare.fails_of_safe accepting (between request start n v entered turns) fails with
        bound | ⟨e, rfl, uncompilable⟩
      · exact .inl bound
      · exact .inr ⟨e, rfl, .inr uncompilable⟩

/-- A function that calls itself as long as the cell is not zero, in at most three frames. -/
def deepening : Interpreter :=
  ⟨{ source := "§f(x) = x[f(x)]\nf(+)".toList, file := [], callLimit := 3 }, oneCell, {}⟩

/-- Whether a result is an error of the program at work. -/
def isRuntimeError {α : Type} : Except Fault α → Bool
  | .error (.runtime _) => true
  | _ => false

/-- A run that is broken off within a loop, and a text with a call that does not compile. -/
def interruptions : List Request := [.run 5, .evaluate 9 [] "§g = [\n+g".toList]

/-- Behind them a run is refused its fourth frame. -/
theorem safe_after_interruptions : ∃ m fault u,
    deepening.after interruptions (deepening.start []) = m ∧ m.Safe ∧ m.stack.length = 1 ∧
    (deepening.answer (.run 40)).run m = .error fault u ∧ u.stack.length = 3 ∧
    BreaksBound fault := by
  have evaluated :
      let m := deepening.after interruptions (deepening.start [])
      let ended := (deepening.answer (.run 40)).run m
      (m.stack.length, (endState ended).stack.length, isRuntimeError (outcome ended)) =
        (1, 3, true) := by
    decide +kernel
  obtain ⟨safe, -, fails⟩ :=
    safe_after (i := deepening) ⟨fun _ => rfl, rfl⟩ (fun _ _ => rfl) interruptions []
  simp only [Prod.mk.injEq] at evaluated
  obtain ⟨frames, deeper, broken⟩ := evaluated
  cases ended : (deepening.answer (.run 40)).run
      (deepening.after interruptions (deepening.start [])) with
  | ok answer u =>
    rw [ended] at broken
    cases broken
  | error fault u =>
    rw [ended] at broken deeper
    refine ⟨_, fault, u, rfl, safe, frames, ended, deeper, ?_⟩
    rcases fails (.run 40) fault u rfl ended with bound | ⟨e, rfl, -⟩
    · exact bound
    · cases broken

end Interpreter
end TapeLang
