import TapeLang.CCode.Emission
import TapeLang.Proofs.Course
import TapeLang.Proofs.Effect

/-! Emission one function at a time. The calls that have names but no function yet wait in a queue,
each with its level, the number of calls that lead to it, and what a body calls first goes to the
end of it. What has a name already bounds nothing, since arguments may grow from call to call, but a
name behind the limit is refused: emission comes to an end, as it does level by level. -/
namespace TapeLang.Emission

section Naming

variable {limit : Int} {deeper : Bool} {n : Naming}

/-- A naming with calls of the next level that were met earlier. -/
def Naming.behind (earlier : List Call) (n : Naming) : Naming := { n with next := n.next ++ earlier }

theorem meet_behind (earlier : List Call) (n : Naming) (i : Instruction) :
    (n.behind earlier).meet limit deeper i =
      (n.meet limit deeper i).map (Naming.behind earlier) := by
  unfold Naming.meet
  cases i.op with
  | command => rfl
  | call target args =>
    dsimp only [Naming.behind]
    cases n.names.find? ⟨target, args⟩ with
    | some name => rfl
    | none => cases deeper <;> rfl

/-- What was met earlier plays no part in how the calls of a program are named. -/
theorem meetAll_behind (earlier : List Call) (n : Naming) (p : Program) :
    (n.behind earlier).meetAll limit deeper p =
      (n.meetAll limit deeper p).map (Naming.behind earlier) := by
  unfold Naming.meetAll
  generalize p.instructions.toList = code
  induction code generalizing n with
  | nil => rfl
  | cons i code ih =>
    rw [List.foldlM_cons, List.foldlM_cons, meet_behind]
    cases n.meet limit deeper i with
    | error e => rfl
    | ok met => exact ih met

/-- Where calls may not nest any deeper, no name is given. -/
theorem meetAll_flat {after : Naming} {p : Program} (met : n.meetAll limit false p = .ok after) :
    after = n := by
  rw [Naming.meetAll] at met
  generalize p.instructions.toList = code at met
  induction code generalizing n with
  | nil =>
    cases met
    rfl
  | cons i code ih =>
    obtain ⟨one, named, rest⟩ := foldlM_cons_eq_ok_iff.mp met
    obtain rfl := ih rest
    unfold Naming.meet at named
    cases op : i.op with
    | command => simpa [op] using named.symm
    | call target args =>
      cases found : n.names.find? ⟨target, args⟩ with
      | some name => simpa [op, found] using named.symm
      | none => simp [op, found] at named

end Naming

variable {σ ε : Type}

theorem emitLevel_flat {fault : SourceError → ε} {compile : Text → List Text → EStateM ε σ Program}
    {limit : Int} {level : List Call} {progress after : Progress} {s t : σ}
    (ran : (emitLevel fault compile limit false level progress).run s = .ok after t) :
    after.naming = progress.naming := by
  induction level generalizing progress s with
  | nil =>
    cases ran
    rfl
  | cons c level ih =>
    obtain ⟨program, u, -, rest⟩ := run_bind_eq_ok_iff.mp ran
    cases met : progress.naming.meetAll limit false program with
    | error e =>
      rw [met] at rest
      cases rest
    | ok naming =>
      rw [met] at rest
      exact (ih rest).trans (meetAll_flat met)

/-- The statements of the program itself, the calls that wait, the next one first, the names given
so far, the functions that are written, and the state of whoever compiles. -/
structure Queue (σ : Type) where
  main : List (Node Text)
  waiting : List (Call × Nat)
  names : CallTable Text
  functions : List CFunction
  state : σ

namespace Queue

/-- The queue of the calls that a level met. -/
def ofProgress (main : List (Node Text)) (level : Nat) (progress : Progress) (s : σ) : Queue σ :=
  ⟨main, progress.naming.next.reverse.map (·, level), progress.naming.names, progress.functions, s⟩

/-- Where emission stands when the bodies of a level were written. -/
def after (main : List (Node Text)) (level : Nat) :
    EStateM.Result ε σ Progress → Course (Queue σ) (EStateM.Result ε σ CProgram)
  | .error e s => .ended (.error e s)
  | .ok progress s => .going (ofProgress main (level + 1) progress s)

/-- The result of emission when all bodies were written. -/
def conclude (main : List (Node Text)) (tapeSize : Nat) :
    EStateM.Result ε σ Progress → EStateM.Result ε σ CProgram
  | .error e s => .error e s
  | .ok progress s => .ok ⟨tapeSize, progress.functions, main⟩ s

variable (fault : SourceError → ε) (compile : Text → List Text → EStateM ε σ Program)
variable (tapeSize : Nat) (limit : Int)

/-- Writes the function of the first call in the queue. -/
def step : Queue σ → Course (Queue σ) (EStateM.Result ε σ CProgram)
  | ⟨main, [], _, functions, s⟩ => .ended (.ok ⟨tapeSize, functions, main⟩ s)
  | ⟨main, (⟨target, args⟩, level) :: rest, names, functions, s⟩ =>
    match (compile target args).run s with
    | .error e s => .ended (.error e s)
    | .ok program s =>
      match Naming.meetAll limit (level < limit) ⟨names, []⟩ program with
      | .error e => .ended (.error (fault e) s)
      | .ok naming =>
        .going ⟨main, rest ++ naming.next.reverse.map (·, level + 1), naming.names,
          functions ++ [⟨naming.nameOf target args, block naming program⟩], s⟩

/-- Emission starts with the program itself. -/
def start (p : Program) (s : σ) : Course (Queue σ) (EStateM.Result ε σ CProgram) :=
  match Naming.meetAll limit (0 < limit) {} p with
  | .error e => .ended (.error (fault e) s)
  | .ok naming => .going (ofProgress (block naming p) 1 ⟨naming, []⟩ s)

open StateTransition Course

/-- The bodies of a level are written in finitely many steps, the calls of the next level behind
them in the queue. -/
theorem reaches_after (main : List (Node Text)) (k : Nat) (level : List Call)
    (progress : Progress) (s : σ) :
    Reaches (next (step fault compile tapeSize limit))
      (going ⟨main, level.map (·, k) ++ progress.naming.next.reverse.map (·, k + 1),
        progress.naming.names, progress.functions, s⟩)
      (after main k ((emitLevel fault compile limit (k < limit) level progress).run s)) := by
  induction level generalizing progress s with
  | nil => exact .refl
  | cons c level ih =>
    obtain ⟨target, args⟩ := c
    rw [emitLevel, EStateM.run_bind]
    cases compiled : (compile target args).run s with
    | error e t =>
      apply reaches_step
      simp [step, compiled, after]
    | ok program t =>
      have earlier : progress.naming.meetAll limit (k < limit) program =
          (Naming.meetAll limit (k < limit) ⟨progress.naming.names, []⟩ program).map
            (.behind progress.naming.next) :=
        meetAll_behind progress.naming.next ⟨progress.naming.names, []⟩ program
      dsimp only
      rw [earlier]
      cases met : Naming.meetAll limit (k < limit) ⟨progress.naming.names, []⟩ program with
      | error e =>
        apply reaches_step
        simp only [step, List.map_cons, List.cons_append, compiled, met]
        rfl
      | ok naming =>
        refine reaches_of_step ?_ (ih ⟨naming.behind progress.naming.next,
          progress.functions ++ [⟨naming.nameOf target args, block naming program⟩]⟩ t)
        simp [step, compiled, met, Naming.behind]

/-- The levels that are left are written in finitely many steps. -/
theorem reaches_conclude (main : List (Node Text)) {budget k : Nat} (positive : 0 < k)
    (levels : k + budget = limit.toNat + 1) (progress : Progress) (s : σ)
    (last : budget = 0 → progress.naming.next = []) :
    Reaches (next (step fault compile tapeSize limit)) (going (ofProgress main k progress s))
      (ended (conclude main tapeSize
        ((emitWithin fault compile limit budget progress).run s))) := by
  induction budget generalizing k progress s with
  | zero =>
    apply reaches_step
    simp only [ofProgress, last rfl]
    rfl
  | succ budget ih =>
    rw [emitWithin]
    by_cases empty : progress.naming.next.isEmpty = true
    · rw [if_pos empty]
      apply reaches_step
      simp only [ofProgress, List.isEmpty_iff.mp empty]
      rfl
    · rw [if_neg empty]
      have deeper : decide (0 < budget) = decide (k < limit) := by
        simp only [decide_eq_decide]
        omega
      rw [deeper]
      have level := reaches_after fault compile tapeSize limit main k
        progress.naming.next.reverse
        { progress with naming := { progress.naming with next := [] } } s
      rw [List.reverse_nil, List.map_nil, List.append_nil] at level
      refine level.trans ?_
      rw [EStateM.run_bind]
      cases written : (emitLevel fault compile limit (k < limit) progress.naming.next.reverse
          { progress with naming := { progress.naming with next := [] } }).run s with
      | error e t => exact .refl
      | ok next t =>
        refine ih (by omega) (by omega) next t ?_
        rintro rfl
        rw [← deeper] at written
        rw [emitLevel_flat written]

/-- Every emission ends, and its result is that of emission level by level. -/
theorem run_mem_eval (p : Program) (s : σ) :
    ended ((p.toC fault compile tapeSize limit).run s) ∈
      eval (next (step fault compile tapeSize limit)) (start fault limit p s) := by
  rw [mem_eval_iff]
  unfold Program.toC start
  cases met : Naming.meetAll limit (0 < limit) {} p with
  | error e => exact .refl
  | ok naming =>
    have last (none : limit.toNat = 0) : naming.next = [] := by
      have flat : decide (0 < limit) = false := by
        rw [decide_eq_false_iff_not]
        omega
      rw [flat] at met
      rw [meetAll_flat met]
    have written := reaches_conclude fault compile tapeSize limit (block naming p) Nat.one_pos
      (Nat.add_comm 1 limit.toNat) ⟨naming, []⟩ s last
    refine written.trans ?_
    dsimp only
    rw [EStateM.run_bind]
    cases (emitWithin fault compile limit limit.toNat ⟨naming, []⟩).run s <;> exact .refl

end Queue
end TapeLang.Emission
