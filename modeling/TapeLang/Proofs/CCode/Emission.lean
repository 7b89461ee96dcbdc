import TapeLang.Proofs.CCode.Naming
import TapeLang.Proofs.Program.Tree

/-! Emission of C programs. Every call that a program reaches is compiled once, and becomes one
function: the block of its program, in which every call carries the name of its function. -/
namespace TapeLang.Emission

/-- `Compiles compile s bodies t`: the calls are compiled in turn to their programs. -/
inductive Compiles {σ ε : Type} (compile : Text → List Text → EStateM ε σ Program) :
    σ → List (Call × Program) → σ → Prop where
  | nil {s} : Compiles compile s [] s
  | cons {s t u c body rest} :
      (compile c.name c.args).run s = .ok body t →
      Compiles compile t rest u →
      Compiles compile s ((c, body) :: rest) u

variable {σ ε : Type} {compile : Text → List Text → EStateM ε σ Program} {s t u : σ}

theorem Compiles.append {first second : List (Call × Program)}
    (start : Compiles compile s first t) (next : Compiles compile t second u) :
    Compiles compile s (first ++ second) u := by
  induction start with
  | nil => exact next
  | cons compiled _ ih => exact .cons compiled (ih next)

/-- The function of a call, once the calls have their names. -/
def functionOf (calls : List Call) (body : Call × Program) : CFunction :=
  ⟨labelOf calls body.1.name body.1.args, Statement.nodes (labelOf calls) body.2.block⟩

/-- How far emission has come: so many bodies are done, the calls that wait have their names,
and `calls` are all calls named so far, in that order. -/
structure Stage (p : Program) (main : List (Node Text)) (progress : Progress)
    (done : List (Call × Program)) (waiting calls : List Call) : Prop where
  order : calls = done.map Prod.fst ++ waiting ++ progress.naming.next.reverse
  names : progress.naming.names = tableOf calls
  distinct : calls.Nodup
  main : main = Statement.nodes (labelOf calls) p.block
  functions : progress.functions = done.map (functionOf calls)
  closed : p.callees ⊆ calls
  inner : ∀ body ∈ done, body.2.callees ⊆ calls
  reached : ∀ d ∈ calls, ∃ n, p.Reaches (fun c q => (c, q) ∈ done) n d

variable {p q : Program} {main : List (Node Text)} {progress after : Progress}
variable {done : List (Call × Program)} {waiting calls fresh : List Call} {c : Call}
variable {n naming : Naming} {limit : Int} {deeper : Bool}

theorem nameOf_eq_labelOf (names : n.names = tableOf calls) : n.nameOf = labelOf calls := by
  funext target args
  rw [Naming.nameOf, names]
  rfl

theorem block_eq_nodes (names : n.names = tableOf calls) (p : Program) :
    block n p = Statement.nodes (labelOf calls) p.block := by
  rw [block, Program.ofOperations_eq_nodes, nameOf_eq_labelOf names]

/-- Calls that are named later do not change a block. -/
theorem nodes_append (distinct : (calls ++ fresh).Nodup) (named : q.callees ⊆ calls) :
    Statement.nodes (labelOf (calls ++ fresh)) q.block =
      Statement.nodes (labelOf calls) q.block :=
  Statement.nodes_congr _ fun _ member =>
    labelOf_append distinct (named (q.blockCalls_subset member))

/-- A body is written, and the calls that are new in it get names. -/
theorem Stage.write (stage : Stage p main progress done (c :: waiting) calls)
    (meets : Meets progress.naming calls naming fresh) (named : q.callees ⊆ calls ++ fresh)
    (called : fresh ⊆ q.callees) :
    Stage p main
      ⟨naming, progress.functions ++ [⟨naming.nameOf c.name c.args, block naming q⟩]⟩
      (done ++ [(c, q)]) waiting (calls ++ fresh) := by
  have waited : c ∈ calls := by
    rw [stage.order]
    simp
  refine ⟨?_, meets.names, meets.distinct, ?_, ?_, ?_, ?_, ?_⟩
  · rw [meets.next, List.reverse_append, List.reverse_reverse]
    conv => lhs; rw [stage.order]
    simp
  · rw [stage.main, nodes_append meets.distinct stage.closed]
  · have kept : progress.functions = done.map (functionOf (calls ++ fresh)) := by
      rw [stage.functions]
      apply List.map_congr_left
      intro body member
      have written : body.1 ∈ calls := by
        rw [stage.order]
        simp only [List.mem_append]
        exact .inl (.inl (List.mem_map_of_mem member))
      rw [functionOf, functionOf, labelOf_append meets.distinct written,
        nodes_append meets.distinct (stage.inner body member)]
    dsimp only
    rw [kept, List.map_append, nameOf_eq_labelOf meets.names, block_eq_nodes meets.names]
    rfl
  · intro d member
    exact List.mem_append_left _ (stage.closed member)
  · intro body member
    rcases List.mem_append.mp member with earlier | last
    · intro d called
      exact List.mem_append_left _ (stage.inner body earlier called)
    · rw [List.mem_singleton.mp last]
      exact named
  · have kept {n : Nat} {d : Call} (reaches : p.Reaches (fun c q => (c, q) ∈ done) n d) :
        p.Reaches (fun d r => (d, r) ∈ done ++ [(c, q)]) n d :=
      reaches.mono fun _ _ written => List.mem_append_left _ written
    intro d member
    rcases List.mem_append.mp member with earlier | new
    · obtain ⟨n, reaches⟩ := stage.reached d earlier
      exact ⟨n, kept reaches⟩
    · obtain ⟨n, reaches⟩ := stage.reached c waited
      have last : (c, q) ∈ done ++ [(c, q)] := List.mem_append_right _ List.mem_cons_self
      exact ⟨n + 1, .inner (kept reaches) last (called new)⟩

/-- Emission of a level compiles the calls of the level and writes their bodies. -/
theorem run_emitLevel {fault : SourceError → ε} {level : List Call}
    (ran : (emitLevel fault compile limit deeper level progress).run s = .ok after t)
    (stage : Stage p main progress done level calls) :
    ∃ bodies calls', Compiles compile s bodies t ∧
      Stage p main after (done ++ bodies) [] calls' ∧
      (deeper = false → after.naming.next = progress.naming.next) := by
  induction level generalizing progress done calls s with
  | nil =>
    cases ran
    refine ⟨[], calls, .nil, ?_, fun _ => rfl⟩
    rw [List.append_nil]
    exact stage
  | cons c level ih =>
    obtain ⟨q, u, compiled, rest⟩ := run_bind_eq_ok_iff.mp ran
    cases met : progress.naming.meetAll limit deeper q with
    | error e =>
      rw [met] at rest
      cases rest
    | ok naming =>
      rw [met] at rest
      obtain ⟨fresh, meets, flat, named, called⟩ := meetAll_meets stage.names stage.distinct met
      obtain ⟨bodies, calls', compiles, final, level⟩ := ih rest (stage.write meets named called)
      refine ⟨(c, q) :: bodies, calls', .cons compiled compiles, ?_, ?_⟩
      · rw [List.append_assoc] at final
        exact final
      · intro flatter
        rw [level flatter, meets.next, flat flatter]
        rfl

/-- Where no call waits, all named calls are done. -/
theorem Stage.finish (stage : Stage p main progress done [] calls)
    (none : progress.naming.next = []) :
    Stage p main progress done [] (done.map Prod.fst) := by
  have order := stage.order
  rw [none, List.reverse_nil, List.append_nil, List.append_nil] at order
  rw [← order]
  exact stage

/-- Emission goes on until no call waits. -/
theorem run_emitWithin {fault : SourceError → ε} {budget : Nat}
    (ran : (emitWithin fault compile limit budget progress).run s = .ok after t)
    (stage : Stage p main progress done [] calls)
    (flat : budget = 0 → progress.naming.next = []) :
    ∃ bodies, Compiles compile s bodies t ∧
      Stage p main after (done ++ bodies) [] ((done ++ bodies).map Prod.fst) := by
  induction budget generalizing progress done calls s with
  | zero =>
    cases ran
    refine ⟨[], .nil, ?_⟩
    rw [List.append_nil]
    exact stage.finish (flat rfl)
  | succ budget ih =>
    rw [emitWithin] at ran
    by_cases empty : progress.naming.next.isEmpty = true
    · rw [if_pos empty] at ran
      cases ran
      refine ⟨[], .nil, ?_⟩
      rw [List.append_nil]
      exact stage.finish (List.isEmpty_iff.mp empty)
    · rw [if_neg empty] at ran
      obtain ⟨next, u, level, rest⟩ := run_bind_eq_ok_iff.mp ran
      have opened : Stage p main
          { progress with naming := { progress.naming with next := [] } } done
          progress.naming.next.reverse calls := by
        refine ⟨?_, stage.names, stage.distinct, stage.main, stage.functions, stage.closed,
          stage.inner, stage.reached⟩
        rw [stage.order]
        simp
      obtain ⟨first, calls', compiles, stage', flat'⟩ := run_emitLevel level opened
      have last (none : budget = 0) : next.naming.next = [] := flat' (by simp [none])
      obtain ⟨others, compiles', final⟩ := ih rest stage' last
      refine ⟨first ++ others, compiles.append compiles', ?_⟩
      rw [← List.append_assoc]
      exact final

/-- What a C program is to a program whose calls have the given bodies. -/
structure Emitted (p : Program) (tapeSize : Nat) (bodies : List (Call × Program))
    (program : CProgram) : Prop where
  tapeSize : program.tapeSize = tapeSize
  distinct : (bodies.map Prod.fst).Nodup
  main : program.main = Statement.nodes (labelOf (bodies.map Prod.fst)) p.block
  functions : program.functions = bodies.map (functionOf (bodies.map Prod.fst))
  closed : p.callees ⊆ bodies.map Prod.fst
  inner : ∀ body ∈ bodies, body.2.callees ⊆ bodies.map Prod.fst
  reached : ∀ c ∈ bodies.map Prod.fst, ∃ n, p.Reaches (fun d q => (d, q) ∈ bodies) n c

/-- The C program of a program has one function for each call that is reached. -/
theorem run_toC {fault : SourceError → ε} {tapeSize : Nat} {program : CProgram}
    (ran : (p.toC fault compile tapeSize limit).run s = .ok program t) :
    ∃ bodies, Compiles compile s bodies t ∧ Emitted p tapeSize bodies program := by
  rw [Program.toC] at ran
  cases met : Naming.meetAll limit (0 < limit) {} p with
  | error e =>
    rw [met] at ran
    cases ran
  | ok naming =>
    rw [met] at ran
    obtain ⟨after, u, emitted, made⟩ := run_bind_eq_ok_iff.mp ran
    cases made
    obtain ⟨fresh, meets, flat, named, called⟩ :=
      meetAll_meets (show ({} : Naming).names = tableOf [] from rfl) List.nodup_nil met
    rw [List.nil_append] at named
    have stage : Stage p (block naming p) ⟨naming, []⟩ [] [] fresh := by
      refine ⟨?_, meets.names, meets.distinct, block_eq_nodes meets.names p, rfl, named, nofun,
        fun c member => ⟨1, .outermost (called member)⟩⟩
      rw [meets.next]
      simp
    have none (flatter : limit.toNat = 0) : naming.next = [] := by
      rw [meets.next, flat (by simpa using Int.toNat_eq_zero.mp flatter)]
      rfl
    obtain ⟨bodies, compiles, final⟩ := run_emitWithin emitted stage none
    exact ⟨bodies, compiles, rfl, final.distinct, final.main, final.functions, final.closed,
      final.inner, final.reached⟩

namespace Emitted

variable {tapeSize : Nat} {bodies : List (Call × Program)} {program : CProgram}

/-- The function with the name of a call is that of its body. -/
theorem find?_function (emitted : Emitted p tapeSize bodies program) {body : Call × Program}
    (member : body ∈ bodies) :
    program.functions.find? (·.name == labelOf (bodies.map Prod.fst) body.1.name body.1.args) =
      some (functionOf (bodies.map Prod.fst) body) := by
  have listed : body.1 ∈ bodies.map Prod.fst := List.mem_map_of_mem member
  rw [emitted.functions, List.find?_map]
  cases found : bodies.find? ((fun f => f.name ==
      labelOf (bodies.map Prod.fst) body.1.name body.1.args) ∘
        functionOf (bodies.map Prod.fst)) with
  | none => exact absurd (List.find?_eq_none.mp found body member) (by simp [functionOf])
  | some other =>
    have named := List.find?_some found
    have otherMember := List.mem_of_find?_eq_some found
    have same : other.1 = body.1 :=
      eq_of_labelOf emitted.distinct (List.mem_map_of_mem otherMember) listed (by
        simpa [functionOf] using named)
    rw [List.inj_on_of_nodup_map emitted.distinct otherMember member same]
    rfl

/-- The text of a program that was emitted can be read, where calls are named by words. -/
theorem isReadable (emitted : Emitted p tapeSize bodies program)
    (word : ∀ c ∈ bodies.map Prod.fst, ∀ ch ∈ c.name, Text.isWord ch = true) :
    program.IsReadable := by
  have named {c : Call} (member : c ∈ bodies.map Prod.fst) :
      CCode.isIdentifier (labelOf (bodies.map Prod.fst) c.name c.args) = true := by
    rw [labelOf_of_mem emitted.distinct member]
    exact isIdentifier_nameAt (word c member) _
  have calls {q : Program} (closed : q.callees ⊆ bodies.map Prod.fst) :
      ∀ name ∈ Node.blockCalls (Statement.nodes (labelOf (bodies.map Prod.fst)) q.block),
        CCode.isIdentifier name = true := by
    intro name member
    rw [Statement.blockCalls_nodes] at member
    obtain ⟨c, called, rfl⟩ := List.mem_map.mp member
    exact named (closed (q.blockCalls_subset called))
  refine ⟨?_, ?_, ?_⟩
  · have names : program.functions.map (·.name) = (bodies.map Prod.fst).map fun c =>
        labelOf (bodies.map Prod.fst) c.name c.args := by
      rw [emitted.functions, List.map_map, List.map_map]
      rfl
    rw [names]
    apply emitted.distinct.map_on
    intro c first d second same
    exact eq_of_labelOf emitted.distinct first second same
  · intro f member
    rw [emitted.functions] at member
    obtain ⟨body, listed, rfl⟩ := List.mem_map.mp member
    exact ⟨named (List.mem_map_of_mem listed), calls (emitted.inner body listed)⟩
  · rw [emitted.main]
    exact calls emitted.closed

end Emitted

end TapeLang.Emission
