import TapeLang.Proofs.Expansion.Started
import TapeLang.Proofs.Machine.Compiled

/-! Calls whose body does not compile. The machine keeps what it had compiled, and all the rest of
its state, except that what the body declared by the time it failed stays declared. Nothing does
where no sigil is met. Where something does, the call is spoilt: compiling it once more meets
a declaration that stands already. -/
namespace TapeLang

/-- Reading a program leaves what a front part of its tokens declares. -/
theorem Source.starts_of_parse (source : Source) (tokens : List Token) (dictionary : Dictionary) :
    Expansion.Starts source source.limit.toNat [] none tokens dictionary
      (endState ((source.parse tokens).run dictionary)) := by
  have started := Expansion.starts_of_run source LoopBinder.consume source.limit.toNat [] none
    tokens ⟨dictionary, {}⟩
  rw [run_parse, run_consumeAll, expand]
  cases expanded : (Expansion.expandWithin source LoopBinder.consume source.limit.toNat [] none
    tokens).run ⟨dictionary, {}⟩ with
  | error e p =>
    rw [expanded] at started
    exact started
  | ok _ p =>
    rw [expanded] at started
    dsimp only
    cases p.consumed.finish <;> exact started

namespace Definition

theorem exists_text_of_bodySource {d : Definition} {args : List Text} {limit : Int}
    {source : Source} {tokens : List Token}
    (made : d.bodySource args limit = .ok (source, tokens)) :
    ∃ file text, d.instantiate args = .ok text ∧ tokenize file text = .ok tokens := by
  unfold bodySource at made
  cases instantiated : d.instantiate args with
  | error e => rw [instantiated] at made; cases made
  | ok text =>
    rw [instantiated] at made
    dsimp only [bind, Except.bind] at made
    cases lexed : tokenize ('<' :: d.name ++ ['>']) text with
    | error e => rw [lexed] at made; cases made
    | ok tokens' =>
      rw [lexed] at made
      cases made
      exact ⟨_, text, rfl, lexed⟩

end Definition

namespace Dictionary

variable {before left later after : Dictionary} {limit : Int} {c : Call} {e : SourceError}

/-- A call that does not compile leaves what a front part of its body declares, if it has one. -/
theorem starts_of_compile (failed : before.compile limit c = .error e left) :
    left = before ∨ ∃ d source tokens, before.find? c.name = some d ∧
      d.bodySource c.args limit = .ok (source, tokens) ∧
      Expansion.Starts source source.limit.toNat [] none tokens before left := by
  unfold compile at failed
  cases found : before.find? c.name with
  | none =>
    rw [found] at failed
    cases failed
    exact .inl rfl
  | some d =>
    rw [found] at failed
    dsimp only at failed
    unfold Definition.compile at failed
    cases made : d.bodySource c.args limit with
    | error e' =>
      rw [made] at failed
      cases failed
      exact .inl rfl
    | ok body =>
      obtain ⟨source, tokens⟩ := body
      rw [made] at failed
      have started := source.starts_of_parse tokens before
      rw [failed] at started
      exact .inr ⟨d, source, tokens, rfl, made, started⟩

/-- A call whose failure left a declaration does not compile behind it. -/
theorem compile_ne_ok_of_abandoned (failed : before.compile limit c = .error e left)
    (declared : left ≠ before) (extended : later.Extends left) {p : Program} :
    later.compile limit c ≠ .ok p after := by
  intro again
  obtain same | ⟨d, source, tokens, found, made, starts⟩ := starts_of_compile failed
  · exact declared same
  · obtain ⟨d', source', tokens', items, binder, found', made', expands, -⟩ :=
      compile_eq_ok_iff.mp again
    cases (find?_extends (extended.trans starts.extends) found).symm.trans found'
    cases made.symm.trans made'
    exact declared (starts.quiet_of_again expands extended).symm

/-- Where a failure left a declaration, a sigil stands in the body, with the arguments in place, or
a call that the body involves holds one. -/
theorem sigil_of_abandoned (failed : before.compile limit c = .error e left)
    (declared : left ≠ before) :
    ∃ d text, before.find? c.name = some d ∧ d.instantiate c.args = .ok text ∧
      (Text.SigilFree text → ∃ callee, Involved before [text] callee ∧
        ¬ callee.SigilFree before) := by
  obtain same | ⟨d, source, tokens, found, made, starts⟩ := starts_of_compile failed
  · exact absurd same declared
  · obtain ⟨file, text, instantiated, lexed⟩ := Definition.exists_text_of_bodySource made
    refine ⟨d, text, found, instantiated, fun plain => ?_⟩
    by_contra none
    have free : ∀ callee, Involved before [text] callee → callee.SigilFree before := by
      intro callee involved
      by_contra sigil
      exact none ⟨callee, involved, sigil⟩
    refine declared (starts.quiet free (.refl _) (tokenize_plain plain lexed) ?_)
    intro t member callee names
    exact .named (List.mem_singleton_self _) ⟨file, tokens, lexed, t, member, names⟩

end Dictionary

namespace Interpreter

variable {i : Interpreter} {m u : Machine} {c : Call} {fault : Fault}

/-- What is left of a machine on which compiling a call was given up. -/
structure Abandoned (i : Interpreter) (m : Machine) (c : Call) (u : Machine) : Prop where
  kept : u = { m with definitions := u.definitions }
  «extends» : u.definitions.Extends m.definitions
  sigil : u ≠ m → ∃ d text, m.definitions.find? c.name = some d ∧
    d.instantiate c.args = .ok text ∧
    (Text.SigilFree text → ∃ callee, Involved m.definitions [text] callee ∧
      ¬ callee.SigilFree m.definitions)
  spoilt : u ≠ m → ∀ v : Machine, v.definitions.Extends u.definitions →
    v.compiled.find? c = none → ∃ fault w, (i.bodyOf c.name c.args).run v = .error fault w

theorem Abandoned.refl (i : Interpreter) (m : Machine) (c : Call) : i.Abandoned m c m :=
  ⟨rfl, .refl _, absurd rfl, absurd rfl⟩

theorem abandoned_of_bodyOf (failed : (i.bodyOf c.name c.args).run m = .error fault u) :
    i.Abandoned m c u := by
  rcases bodyOf_fails failed with ⟨-, rfl, -⟩ | ⟨e, left, compiled, rfl, -⟩
  · exact .refl i _ c
  · have declared (changed : { m with definitions := left } ≠ m) : left ≠ m.definitions := by
      rintro rfl
      exact changed rfl
    refine ⟨rfl, Dictionary.grows_compile compiled, ?_, ?_⟩
    · intro changed
      exact Dictionary.sigil_of_abandoned compiled (declared changed)
    · intro changed v extended fresh
      cases again : (i.bodyOf c.name c.args).run v with
      | error fault w => exact ⟨fault, w, rfl⟩
      | ok p w =>
        rcases bodyOf_cases again with ⟨found, -⟩ | ⟨-, after, compiles, -⟩
        · cases fresh.symm.trans found
        · exact absurd compiles
            (Dictionary.compile_ne_ok_of_abandoned compiled (declared changed) extended)

/-- A call that fails, asked for by itself or in a step, leaves the compiled calls as they were, and
the definitions too, unless a sigil is met in its body or in a call that this involves. What was
declared before the failure stays, and then the call can never be compiled. -/
theorem abandoned (failed : (i.bodyOf c.name c.args).run m = .error fault u ∨
      ∃ cursor instruction, instruction.op = .call c.name c.args ∧
        (i.step cursor instruction).run m = .error fault u) :
    i.Abandoned m c u := by
  rcases failed with failed | ⟨cursor, instruction, call, failed⟩
  · exact abandoned_of_bodyOf failed
  · cases refused_of_step failed with
    | act op => cases call.symm.trans op
    | depth => exact .refl i _ c
    | body op _ ran =>
      cases call.symm.trans op
      exact abandoned_of_bodyOf ran

/-- A function whose body declares a macro in front of a name that is not defined. -/
def undefinedBehind : Machine :=
  scratch.after [.evaluate 9 [] "$a = $m = +\n§f = a g".toList] (scratch.start [])

/-- The macro stays, though the function does not compile. -/
theorem definitions_of_undefinedBehind : ¬ ∀ (i : Interpreter) (history : List Request)
    (input : List Int) (c : Call) (fault : Fault) (u : Machine),
    (i.bodyOf c.name c.args).run (i.after history (i.start input)) = .error fault u →
    u.definitions = (i.after history (i.start input)).definitions ∧
      u.compiled = (i.after history (i.start input)).compiled := by
  intro same
  have evaluated :
      let ended := (scratch.bodyOf "f".toList []).run undefinedBehind
      (failure? ended).isSome ∧
        (endState ended).definitions ≠ undefinedBehind.definitions := by
    decide +kernel
  obtain ⟨failed, changed⟩ := evaluated
  cases ended : (scratch.bodyOf "f".toList []).run undefinedBehind with
  | ok p u => rw [ended] at failed; cases failed
  | error fault u =>
    rw [ended] at changed
    exact changed (same scratch _ [] ⟨"f".toList, []⟩ fault u ended).1

/-- Once the name is defined too, the function does still not compile. -/
theorem abandoned_undefinedBehind : ∃ fault u,
    (scratch.bodyOf "f".toList []).run undefinedBehind = .error fault u ∧
    undefinedBehind.definitions.find? "m".toList = none ∧
    (u.definitions.find? "m".toList).isSome ∧
    scratch.Abandoned undefinedBehind ⟨"f".toList, []⟩ u ∧
    ∃ fault' w, (scratch.bodyOf "f".toList []).run
      (scratch.after [.evaluate 9 [] "$g = -".toList] u) = .error fault' w := by
  have evaluated :
      let ended := (scratch.bodyOf "f".toList []).run undefinedBehind
      let later := scratch.after [.evaluate 9 [] "$g = -".toList] (endState ended)
      (failure? ended).isSome ∧ undefinedBehind.definitions.find? "m".toList = none ∧
        ((endState ended).definitions.find? "m".toList).isSome ∧
        (endState ended).definitions.toList <+: later.definitions.toList ∧
        later.compiled.find? ⟨"f".toList, []⟩ = none := by
    decide +kernel
  obtain ⟨failed, absent, declared, extended, fresh⟩ := evaluated
  cases ended : (scratch.bodyOf "f".toList []).run undefinedBehind with
  | ok p u => rw [ended] at failed; cases failed
  | error fault u =>
    rw [ended] at declared extended fresh
    have left := abandoned (c := ⟨"f".toList, []⟩) (.inl ended)
    have changed : u ≠ undefinedBehind := by
      intro same
      rw [same, endState, absent] at declared
      cases declared
    exact ⟨fault, u, rfl, absent, declared, left, left.spoilt changed _ extended fresh⟩

end Interpreter
end TapeLang
