import TapeLang.Proofs.Inlining.Block
import TapeLang.Proofs.Machine.Structured

/-! A structured run with calls and the run of the inlined block do the same: whatever the one
does to the world, but for counting its calls, the other does too, and either ends if the other
one does. Only the limit of nested calls tells them apart. -/
namespace TapeLang

/-- A fault without its place and its step. -/
def Fault.cause : Fault → Fault
  | .source e => .source { e with location := none }
  | .runtime e => .runtime { e with location := none, step := none }
  | .foreign message => .foreign message

theorem Fault.cause_placed {f g : Fault} (same : f.cause = g.cause) (op : Operation)
    (location location' : Option Location) (w w' : World) :
    (f.placed op location w).cause = (g.placed op location' w').cause := by
  have only (fault : Fault) (location : Option Location) (u : World) :
      (fault.placed op location u).cause = (fault.cause.placed op none w).cause := by
    cases fault <;> rfl
  rw [only f, only g, same]

namespace World

/-- A world without the size of its program and the number of its steps. -/
def effects (w : World) : World :=
  { w with counters := { w.counters with programSize := 0, steps := 0 } }

variable {w w' : World}

theorem effects_bracket (same : w.effects = w'.effects) :
    w.bracket.effects = w'.bracket.effects :=
  congrArg read same

theorem tape_eq (same : w.effects = w'.effects) : w.tape = w'.tape :=
  (World.mk.inj same).1

/-- An action does not look at the size of the program and the number of steps. -/
theorem act_effects (w : World) (refuses : Array UInt8 → UInt8 → Option Text) (action : Action) :
    w.effects.act refuses action =
      match w.act refuses action with
      | .ok () u => .ok () u.effects
      | .error fault u => .error fault u.effects := by
  obtain ⟨tape, input, output, counters⟩ := w
  cases action with
  | increment =>
    simp only [act, effects]
    cases tape.add 1 <;> rfl
  | decrement =>
    simp only [act, effects]
    cases tape.add (-1) <;> rfl
  | left =>
    simp only [act, effects]
    cases tape.move (-1) <;> rfl
  | right =>
    simp only [act, effects]
    cases tape.move 1 <;> rfl
  | output =>
    simp only [act, effects]
    cases refuses output tape.get <;> rfl
  | input =>
    simp only [act, effects]
    cases input with
    | nil => rfl
    | cons value input =>
      dsimp only
      by_cases negative : value < 0
      · rw [if_pos negative, if_pos negative]
      · rw [if_neg negative, if_neg negative]
        cases tape.set value <;> rfl

end World

/-- Ends with the same effects and, if they are faults, the same cause. -/
def SameEffects : RunResult → RunResult → Prop :=
  Matched (fun _ _ => True) (fun f g => f.cause = g.cause) fun w w' => w.effects = w'.effects

/-- An action ends alike in worlds that differ in what it does not look at. -/
theorem World.sameEffects_act {w w' : World} (same : w.effects = w'.effects)
    (refuses : Array UInt8 → UInt8 → Option Text) (action : Action) :
    SameEffects (w.act refuses action) (w'.act refuses action) := by
  have left := w.act_effects refuses action
  have right := w'.act_effects refuses action
  rw [same, right] at left
  cases acted : w.act refuses action with
  | ok _ u =>
    cases acted' : w'.act refuses action with
    | ok _ u' =>
      rw [acted, acted'] at left
      exact .ok trivial (EStateM.Result.ok.inj left).2.symm
    | error fault u' => rw [acted, acted'] at left; cases left
  | error fault u =>
    cases acted' : w'.act refuses action with
    | ok _ u' => rw [acted, acted'] at left; cases left
    | error fault' u' =>
      rw [acted, acted'] at left
      obtain ⟨faults, worlds⟩ := EStateM.Result.error.inj left
      exact .error (congrArg Fault.cause faults.symm) worlds.symm

namespace Runs

variable {i : Interpreter} {dictionary : Dictionary} {depth : Nat} {block more : List Statement}
variable {w : World} {result next : RunResult}

/-- A block is run before what stands behind it, unless it fails. -/
theorem append (first : Runs i dictionary depth block w result)
    (behind : ∀ u, result = .ok () u → Runs i dictionary depth more u next)
    (failed : ∀ fault u, result = .error fault u → next = .error fault u) :
    Runs i dictionary depth (block ++ more) w next := by
  induction first with
  | nil => exact behind _ rfl
  | act acted _ ih => exact .act acted (ih behind failed)
  | actFails acted =>
    rw [failed _ _ rfl]
    exact .actFails acted
  | skip zero _ ih => exact .skip zero (ih behind failed)
  | bodyFails nonzero body _ =>
    rw [failed _ _ rfl]
    exact .bodyFails nonzero body
  | leave nonzero body zero _ _ ih => exact .leave nonzero body zero (ih behind failed)
  | again nonzero body nonzeroEnd _ _ ih => exact .again nonzero body nonzeroEnd (ih behind failed)
  | tooDeep full =>
    rw [failed _ _ rfl]
    exact .tooDeep full
  | refused room body =>
    rw [failed _ _ rfl]
    exact .refused room body
  | calleeFails room body callee _ =>
    rw [failed _ _ rfl]
    exact .calleeFails room body callee
  | call room body callee _ _ ih => exact .call room body callee (ih behind failed)

/-- A run of two blocks is a run of the first one that fails, or one of each. -/
def Splits (i : Interpreter) (dictionary : Dictionary) (depth : Nat) (block more : List Statement)
    (w : World) (next : RunResult) : Prop :=
  (∃ u, Runs i dictionary depth block w (.ok () u) ∧ Runs i dictionary depth more u next) ∨
    ∃ fault u, next = .error fault u ∧ Runs i dictionary depth block w (.error fault u)

theorem Splits.lift {block' : List Statement} {w' : World}
    (splits : Splits i dictionary depth block more w next)
    (rule : ∀ {result}, Runs i dictionary depth block w result →
      Runs i dictionary depth block' w' result) :
    Splits i dictionary depth block' more w' next := by
  rcases splits with ⟨u, first, second⟩ | ⟨fault, u, failed, first⟩
  · exact .inl ⟨u, rule first, second⟩
  · exact .inr ⟨fault, u, failed, rule first⟩

theorem splits (runs : Runs i dictionary depth (block ++ more) w next) :
    Splits i dictionary depth block more w next := by
  induction block generalizing w with
  | nil => exact .inl ⟨w, .nil, runs⟩
  | cons statement block ih =>
    -- a loop that goes on is met again in front of the same statements
    generalize both : statement :: block ++ more = whole at runs
    induction runs with
    | nil => cases both
    | act acted rest =>
      cases both
      exact (ih rest).lift (.act acted)
    | actFails acted =>
      cases both
      exact .inr ⟨_, _, rfl, .actFails acted⟩
    | skip zero rest =>
      cases both
      exact (ih rest).lift (.skip zero)
    | bodyFails nonzero body =>
      cases both
      exact .inr ⟨_, _, rfl, .bodyFails nonzero body⟩
    | leave nonzero body zero rest =>
      cases both
      exact (ih rest).lift (.leave nonzero body zero)
    | again nonzero body nonzeroEnd _ _ ihAgain =>
      cases both
      exact (ihAgain ih rfl).lift (.again nonzero body nonzeroEnd)
    | tooDeep full =>
      cases both
      exact .inr ⟨_, _, rfl, .tooDeep full⟩
    | refused room body =>
      cases both
      exact .inr ⟨_, _, rfl, .refused room body⟩
    | calleeFails room body callee =>
      cases both
      exact .inr ⟨_, _, rfl, .calleeFails room body callee⟩
    | call room body callee rest =>
      cases both
      exact (ih rest).lift (.call room body callee)

end Runs

/-- Whether a run ends at the limit of nested calls. -/
def RunResult.TooDeep (result : RunResult) : Prop :=
  ∃ e u, result = .error (.runtime e) u ∧ e.fault.kind = .callDepth

theorem RunResult.not_tooDeep_ok (u : World) : ¬ RunResult.TooDeep (.ok () u) := by
  rintro ⟨e, v, ended, -⟩
  cases ended

section

variable {i j : Interpreter} {dictionary dictionary' : Dictionary} {depth depth' : Nat}
variable {block flat : List Statement} {w w' : World} {result result' : RunResult}

/-- A run with calls is followed by the run of the inlined block, which has the same effects. -/
theorem Runs.exists_inlined (refuses : j.setup.refuses = i.setup.refuses)
    (inlined : InlinedBlock dictionary i.setup.expansionLimit block flat)
    (runs : Runs i dictionary depth block w result) (same : w.effects = w'.effects) :
    result.TooDeep ∨
      ∃ result', Runs j dictionary' depth' flat w' result' ∧ SameEffects result result' := by
  -- on the run, since a loop that goes on is met again with the same inlining
  induction runs generalizing flat w' with
  | nil =>
    cases inlined
    exact .inr ⟨_, .nil, .ok trivial same⟩
  | @act _ action _ _ _ _ _ acted _ ih =>
    cases inlined with
    | act rest =>
      have acts := World.sameEffects_act same i.setup.refuses action
      rw [acted, ← refuses] at acts
      obtain ⟨_, u', acted', -, worlds⟩ := acts.exists_ok
      have stepped : (World.step _).effects = u'.step.effects := worlds
      exact (ih rest stepped).imp_right fun ⟨result', runs', alike⟩ =>
        ⟨result', .act acted' runs', alike⟩
  | @actFails _ action _ _ _ _ _ acted =>
    cases inlined with
    | act rest =>
      have acts := World.sameEffects_act same i.setup.refuses action
      rw [acted, ← refuses] at acts
      obtain ⟨_, u', acted', cause, worlds⟩ := acts.exists_error
      exact .inr ⟨_, .actFails acted', .error (Fault.cause_placed cause _ _ _ _ _) worlds⟩
  | skip zero _ ih =>
    cases inlined with
    | loop body rest =>
      rw [World.tape_eq same] at zero
      exact (ih rest (World.effects_bracket same)).imp_right fun ⟨result', runs', alike⟩ =>
        ⟨result', .skip zero runs', alike⟩
  | bodyFails nonzero _ ih =>
    cases inlined with
    | loop body rest =>
      rw [World.tape_eq same] at nonzero
      rcases ih body (World.effects_bracket same) with deep | ⟨_, runs', _ | ⟨cause, worlds⟩⟩
      · exact .inl deep
      · exact .inr ⟨_, .bodyFails nonzero runs', .error cause worlds⟩
  | leave nonzero _ zero _ ihBody ihRest =>
    cases inlined with
    | loop body rest =>
      rw [World.tape_eq same] at nonzero
      rcases ihBody body (World.effects_bracket same) with deep | ⟨_, runs', ⟨_, worlds⟩ | _⟩
      · exact absurd deep (RunResult.not_tooDeep_ok _)
      · rw [World.tape_eq worlds] at zero
        exact (ihRest rest (World.effects_bracket worlds)).imp_right fun ⟨_, after, alike⟩ =>
          ⟨_, .leave nonzero runs' zero after, alike⟩
  | again nonzero _ nonzeroEnd _ ihBody ihAgain =>
    cases inlined with
    | loop body rest =>
      rw [World.tape_eq same] at nonzero
      rcases ihBody body (World.effects_bracket same) with deep | ⟨_, runs', ⟨_, worlds⟩ | _⟩
      · exact absurd deep (RunResult.not_tooDeep_ok _)
      · rw [World.tape_eq worlds] at nonzeroEnd
        have anew := ihAgain (.loop body rest) (World.effects_bracket worlds)
        exact anew.imp_right fun ⟨_, after, alike⟩ =>
          ⟨_, .again nonzero runs' nonzeroEnd after, alike⟩
  | tooDeep full => exact .inl ⟨_, _, rfl, rfl⟩
  | refused room refused =>
    cases inlined with
    | call body => cases refused.symm.trans body
  | calleeFails room compiled _ ih =>
    cases inlined with
    | call body inner rest =>
      cases compiled.symm.trans body
      have called : (World.step _).effects = w'.effects := same
      rcases ih inner called with deep | ⟨_, runs', _ | ⟨cause, worlds⟩⟩
      · exact .inl deep
      · refine .inr ⟨_, runs'.append ?_ fun _ _ ended => ended, .error cause worlds⟩
        intro u ended
        cases ended
  | call room compiled _ _ ihBody ihRest =>
    cases inlined with
    | call body inner rest =>
      cases compiled.symm.trans body
      have called : (World.step _).effects = w'.effects := same
      rcases ihBody inner called with deep | ⟨_, runs', ⟨_, worlds⟩ | _⟩
      · exact absurd deep (RunResult.not_tooDeep_ok _)
      · refine (ihRest rest worlds).imp_right fun ⟨_, after, alike⟩ =>
          ⟨_, runs'.append ?_ fun _ _ ended => ?_, alike⟩
        · intro u ended
          cases ended
          exact after
        · cases ended

/-- Whether a run with calls ends as the run of the inlined block, or at the limit of nested
calls. -/
def Mirrors (result result' : RunResult) : Prop :=
  result.TooDeep ∨ SameEffects result result'

theorem Mirrors.ends_ok {u' : World} (mirrors : Mirrors result (.ok () u')) :
    (∃ fault u, result = .error fault u ∧ result.TooDeep) ∨
      ∃ u, result = .ok () u ∧ u.effects = u'.effects := by
  rcases mirrors with deep | ⟨_, worlds⟩
  · obtain ⟨e, u, rfl, -⟩ := id deep
    exact .inl ⟨_, u, rfl, deep⟩
  · exact .inr ⟨_, rfl, worlds⟩

theorem Mirrors.ends_error {fault' : Fault} {u' : World}
    (mirrors : Mirrors result (.error fault' u')) : ∃ fault u, result = .error fault u := by
  rcases mirrors with ⟨e, u, rfl, -⟩ | _ | _
  · exact ⟨_, u, rfl⟩
  · exact ⟨_, _, rfl⟩

/-- The run of a loop, from runs of its body and of what stands behind it. -/
theorem Runs.exists_loop {inner rest : List Statement} {body : List Statement}
    (ofBody : ∀ {w w' result'}, Runs j dictionary' depth' inner w' result' →
      w.effects = w'.effects →
      ∃ result, Runs i dictionary depth body w result ∧ Mirrors result result')
    (ofRest : ∀ {w w' result'}, Runs j dictionary' depth' flat w' result' →
      w.effects = w'.effects →
      ∃ result, Runs i dictionary depth rest w result ∧ Mirrors result result')
    (runs : Runs j dictionary' depth' (.loop inner :: flat) w' result')
    (same : w.effects = w'.effects) :
    ∃ result, Runs i dictionary depth (.loop body :: rest) w result ∧ Mirrors result result' := by
  -- of the run of this loop alone: its body and what follows it are left to the premises
  generalize whole : Statement.loop inner :: flat = looping at runs
  induction runs generalizing w with
  | nil | act | actFails | tooDeep | refused | calleeFails | call => cases whole
  | skip zero after =>
    cases whole
    rw [← World.tape_eq same] at zero
    obtain ⟨result, runs, mirrors⟩ := ofRest after (World.effects_bracket same)
    exact ⟨result, .skip zero runs, mirrors⟩
  | bodyFails nonzero once =>
    cases whole
    rw [← World.tape_eq same] at nonzero
    obtain ⟨result, runs, mirrors⟩ := ofBody once (World.effects_bracket same)
    obtain ⟨fault, u, rfl⟩ := mirrors.ends_error
    exact ⟨_, .bodyFails nonzero runs, mirrors⟩
  | leave nonzero once zero after =>
    cases whole
    rw [← World.tape_eq same] at nonzero
    obtain ⟨result, runs, mirrors⟩ := ofBody once (World.effects_bracket same)
    rcases mirrors.ends_ok with ⟨fault, u, rfl, deep⟩ | ⟨u, rfl, worlds⟩
    · exact ⟨_, .bodyFails nonzero runs, .inl deep⟩
    · rw [← World.tape_eq worlds] at zero
      obtain ⟨result, later, mirrors⟩ := ofRest after (World.effects_bracket worlds)
      exact ⟨result, .leave nonzero runs zero later, mirrors⟩
  | again nonzero once nonzeroEnd _ _ ihAgain =>
    cases whole
    rw [← World.tape_eq same] at nonzero
    obtain ⟨result, runs, mirrors⟩ := ofBody once (World.effects_bracket same)
    rcases mirrors.ends_ok with ⟨fault, u, rfl, deep⟩ | ⟨u, rfl, worlds⟩
    · exact ⟨_, .bodyFails nonzero runs, .inl deep⟩
    · rw [← World.tape_eq worlds] at nonzeroEnd
      obtain ⟨result, later, mirrors⟩ := ihAgain ofBody ofRest (World.effects_bracket worlds) rfl
      exact ⟨result, .again nonzero runs nonzeroEnd later, mirrors⟩

/-- A run of an inlined block is one that a run with calls has followed, unless that one meets
the limit of nested calls. -/
theorem Runs.exists_calling (refuses : j.setup.refuses = i.setup.refuses)
    (inlined : InlinedBlock dictionary i.setup.expansionLimit block flat)
    (runs : Runs j dictionary' depth' flat w' result') (same : w.effects = w'.effects) :
    ∃ result, Runs i dictionary depth block w result ∧ Mirrors result result' := by
  -- on the inlining, since the run of a body and of what follows it is one run here
  induction inlined generalizing depth w w' result' with
  | nil =>
    cases runs
    exact ⟨_, .nil, .inr (.ok trivial same)⟩
  | @act action _ _ _ _ _ ih =>
    have acts := World.sameEffects_act same.symm i.setup.refuses action
    cases runs with
    | act acted' after =>
      rw [← refuses, acted', refuses] at acts
      obtain ⟨_, u, acted, -, worlds⟩ := acts.exists_ok
      obtain ⟨result, runs, mirrors⟩ := ih (w := u.step) after worlds.symm
      exact ⟨result, .act acted runs, mirrors⟩
    | actFails acted' =>
      rw [← refuses, acted', refuses] at acts
      obtain ⟨_, u, acted, cause, worlds⟩ := acts.exists_error
      exact ⟨_, .actFails acted,
        .inr (.error (Fault.cause_placed cause.symm _ _ _ _ _) worlds.symm)⟩
  | loop _ _ ihBody ihRest => exact Runs.exists_loop ihBody ihRest runs same
  | @call target args _ _ _ _ _ compiled _ _ ihBody ihRest =>
    by_cases full : i.setup.callLimit ≤ depth
    · exact ⟨_, .tooDeep full, .inl ⟨_, _, rfl, rfl⟩⟩
    · have called : w.step.effects = w'.effects := same
      rcases runs.splits with ⟨u', first, second⟩ | ⟨fault, u', rfl, first⟩
      · obtain ⟨result, runs, mirrors⟩ := ihBody first called
        rcases mirrors.ends_ok with ⟨fault, u, rfl, deep⟩ | ⟨u, rfl, worlds⟩
        · exact ⟨_, .calleeFails full compiled runs, .inl deep⟩
        · obtain ⟨result, later, mirrors⟩ := ihRest second worlds
          exact ⟨result, .call full compiled runs later, mirrors⟩
      · obtain ⟨result, runs, mirrors⟩ := ihBody first called
        obtain ⟨fault, u, rfl⟩ := mirrors.ends_error
        exact ⟨_, .calleeFails full compiled runs, mirrors⟩

end

end TapeLang
