import TapeLang.Proofs.CCode.Layout
import TapeLang.Proofs.CCode.Levels
import TapeLang.Proofs.Machine.CCode
import TapeLang.Proofs.Machine.Tracking

/-! The functions of a C text that a machine writes. There is one for each call that the program
reaches, and the text is refused exactly where a call is nested deeper than the limit. -/
namespace TapeLang

open Emission (Compiles Emitted Compilable)

namespace Emission

variable {calls : List Call}

/-- Calls that were met in turn are named after their places. -/
theorem map_labelOf (distinct : calls.Nodup) :
    calls.map (fun c => labelOf calls c.name c.args) = calls.mapIdx fun k c => nameAt c k := by
  apply List.ext_getElem
  · simp
  · intro k inside _
    have listed : k < calls.length := by simpa using inside
    simp [labelOf_of_mem distinct, List.Nodup.idxOf_getElem distinct]

variable {p : Program} {tapeSize : Nat} {bodies : List (Call × Program)} {program : CProgram}

theorem Emitted.names (emitted : Emitted p tapeSize bodies program) :
    program.functions.map (·.name) = (bodies.map Prod.fst).mapIdx fun k c => nameAt c k := by
  rw [← map_labelOf emitted.distinct, emitted.functions]
  simp [functionOf]

/-- Every call of a function that is emitted is one of a function. -/
theorem Emitted.called (emitted : Emitted p tapeSize bodies program) :
    program.functions.flatMap (fun f => Node.blockCalls f.body) ++ Node.blockCalls program.main ⊆
      program.functions.map (·.name) := by
  have listed {q : Program} (closed : q.callees ⊆ bodies.map Prod.fst) :
      Node.blockCalls (Statement.nodes (labelOf (bodies.map Prod.fst)) q.block) ⊆
        program.functions.map (·.name) := by
    intro name member
    rw [Statement.blockCalls_nodes] at member
    obtain ⟨c, called, rfl⟩ := List.mem_map.mp member
    rw [emitted.names, ← map_labelOf emitted.distinct]
    exact List.mem_map_of_mem (closed (q.blockCalls_subset called))
  apply List.append_subset.mpr
  constructor
  · intro name member
    obtain ⟨f, inside, called⟩ := List.mem_flatMap.mp member
    rw [emitted.functions] at inside
    obtain ⟨body, written, rfl⟩ := List.mem_map.mp inside
    exact listed (emitted.inner body written) called
  · rw [emitted.main]
    exact listed emitted.closed

end Emission

namespace Interpreter

/-- A machine gives a call the program. -/
def Gives (i : Interpreter) (m : Machine) (c : Call) (q : Program) : Prop :=
  ∃ u, (i.bodyOf c.name c.args).run m = .ok q u

variable {i : Interpreter} {m u : Machine} {c : Call} {p q r : Program} {n : Nat}
variable {bodies : List (Call × Program)} {program : CProgram} {limit : Int}

theorem Gives.unique (first : i.Gives m c q) (second : i.Gives m c r) : q = r := by
  obtain ⟨u, ran⟩ := first
  obtain ⟨v, again⟩ := second
  cases ran.symm.trans again
  rfl

theorem gives_of_compiled (known : m.compiled.find? c = some q) : i.Gives m c q :=
  ⟨_, run_bodyOf_eq_ok_iff.mpr ⟨_, .kept known, rfl⟩⟩

theorem learns_of_compiles (compiles : Compiles i.bodyOf m bodies u) : i.Learns m u := by
  induction compiles with
  | nil => exact Std.Refl.refl _
  | cons compiled _ ih => exact ((learns_bodyOf _ _ _).of_ok compiled).trans ih

/-- Calls that were compiled in turn are all compiled behind the last. -/
theorem compiled_of_compiles (compiles : Compiles i.bodyOf m bodies u) :
    ∀ body ∈ bodies, u.compiled.find? body.1 = some body.2 := by
  induction compiles with
  | nil => nofun
  | @cons m v u c q rest ran more ih =>
    have first : u.compiled.find? c = some q :=
      (learns_of_compiles more).kept c q (find?_of_bodyOf ran)
    exact List.forall_mem_cons.mpr ⟨first, ih⟩

section

variable (compiles : Compiles i.bodyOf m bodies u) (emitted : Emitted p i.blank.size bodies program)

include compiles emitted

/-- The functions of a C program are the calls that its program reaches. -/
theorem mem_functions_iff : c ∈ bodies.map Prod.fst ↔ ∃ n, p.Reaches (i.Gives u) n c := by
  have compiled := compiled_of_compiles compiles
  constructor
  · intro member
    obtain ⟨n, reaches⟩ := emitted.reached c member
    exact ⟨n, reaches.mono fun _ _ written => gives_of_compiled (compiled _ written)⟩
  · rintro ⟨n, reaches⟩
    induction reaches with
    | outermost called => exact emitted.closed called
    | inner _ ran called ih =>
      obtain ⟨body, written, rfl⟩ := List.mem_map.mp ih
      rw [ran.unique (gives_of_compiled (compiled _ written))] at called
      exact emitted.inner body written called

theorem isWord_of_compiles {source : Source} {tokens : List Token} {before after : Dictionary}
    (parsed : (source.parse tokens).run before = .ok p after) (cached : i.Cached m) :
    ∀ c ∈ bodies.map Prod.fst, ∀ ch ∈ c.name, Text.isWord ch = true := by
  have later : i.Cached u := cached.grows (learns_of_compiles compiles).toGrows
  intro c member
  obtain ⟨n, reaches⟩ := emitted.reached c member
  cases reaches with
  | outermost called => exact Source.isWord_of_callees parsed c called
  | inner _ written called =>
    obtain ⟨_, compiled, -⟩ := later _ _ (compiled_of_compiles compiles _ written)
    obtain ⟨_, _, read⟩ := Dictionary.exists_parse compiled
    exact Source.isWord_of_callees read c called

end

/-- A machine that has compiled calls of another one on the same definitions. -/
structure Recalls (i : Interpreter) (m s : Machine) : Prop where
  definitions : s.definitions = m.definitions
  kept : ∀ c q, m.compiled.find? c = some q → s.compiled.find? c = some q
  compiled : ∀ c q, s.compiled.find? c = some q → i.Gives m c q

theorem Recalls.refl (m : Machine) : i.Recalls m m :=
  ⟨rfl, fun _ _ known => known, fun _ _ known => gives_of_compiled known⟩

/-- A call that declares nothing is compiled to the same program later. -/
theorem Recalls.bodyOf {s : Machine} (recalls : i.Recalls m s)
    (ran : (i.bodyOf c.name c.args).run m = .ok q u) (quiet : u.definitions = m.definitions) :
    ∃ t, (i.bodyOf c.name c.args).run s = .ok q t ∧ i.Recalls m t := by
  have given : i.Gives m c q := ⟨u, ran⟩
  cases known : s.compiled.find? c with
  | some r =>
    obtain rfl := given.unique (recalls.compiled c r known)
    exact ⟨_, run_bodyOf_eq_ok_iff.mpr ⟨_, .kept known, rfl⟩, recalls⟩
  | none =>
    obtain ⟨t, gives, rfl⟩ := run_bodyOf_eq_ok_iff.mp ran
    cases gives with
    | kept earlier => cases known.symm.trans (recalls.kept c q earlier)
    | @compiled d left unknown found form made =>
      obtain rfl : left = m.definitions := quiet
      have again : s.tables.Gives i.setup.expansionLimit c q
          ⟨m.definitions, s.compiled.insert c q⟩ := by
        refine .compiled known ?_ form ?_
        · exact (congrArg (·.find? c.name) recalls.definitions).trans found
        · exact (congrArg (·.compile i.setup.expansionLimit c) recalls.definitions).trans made
      refine ⟨_, run_bodyOf_eq_ok_iff.mpr ⟨_, again, rfl⟩, rfl, ?_, ?_⟩
      · intro d r earlier
        have other : d ≠ c := by
          rintro rfl
          cases unknown.symm.trans earlier
        have kept := recalls.kept d r earlier
        simpa [Machine.setTables, CallTable.find?_insert, other] using kept
      · intro d r later
        simp only [Machine.setTables, CallTable.find?_insert] at later
        split at later
        · rename_i same
          cases later
          exact same ▸ given
        · exact recalls.compiled d r later

/-- Every call that a program reaches compiles without declaring anything. -/
def CompilesQuietly (i : Interpreter) (m : Machine) (p : Program) : Prop :=
  ∀ n c, p.Reaches (i.Gives m) n c →
    ∃ q u, (i.bodyOf c.name c.args).run m = .ok q u ∧ u.definitions = m.definitions

theorem CompilesQuietly.compilable (quiet : i.CompilesQuietly m p) :
    Compilable i.bodyOf (i.Gives m) p (i.Recalls m) := by
  constructor
  · exact fun _ _ _ => Gives.unique
  · intro n c s reaches recalls
    obtain ⟨q, u, ran, declared⟩ := quiet n c reaches
    obtain ⟨t, again, later⟩ := recalls.bodyOf ran declared
    exact ⟨q, t, ⟨u, ran⟩, again, later⟩

/-- Where a program reaches only calls of a list, on which compiling stays and declares nothing. -/
theorem compilesQuietly_of_closed {calls : List Call} (outer : p.callees ⊆ calls)
    (closed : ∀ c ∈ calls, ∃ q u, (i.bodyOf c.name c.args).run m = .ok q u ∧
      u.definitions = m.definitions ∧ q.callees ⊆ calls) : i.CompilesQuietly m p := by
  have inside {n : Nat} {c : Call} (reaches : p.Reaches (i.Gives m) n c) : c ∈ calls := by
    induction reaches with
    | outermost called => exact outer called
    | @inner n c q d _ given called ih =>
      obtain ⟨r, u, ran, -, stays⟩ := closed c ih
      rw [given.unique ⟨u, ran⟩] at called
      exact stays called
  intro n c reaches
  obtain ⟨q, u, ran, quiet, -⟩ := closed c (inside reaches)
  exact ⟨q, u, ran, quiet⟩

/-- The C text that a machine writes for a parsed program has one function for each call that the
program reaches, in an order of the calls: it declares and defines each once, calls no others, and
all brackets are closed, with every line as deep as it is nested. Where the calls that the program
reaches compile without declaring anything, the text is refused as nested too deep exactly if all
chains to one of them are longer than the limit, and written otherwise. -/
theorem toC_functions (i : Interpreter) (history : List Request) (input : List Int)
    {source : Source} {tokens : List Token} {before after : Dictionary} {p : Program}
    (parsed : (source.parse tokens).run before = .ok p after) (limit : Int) :
    let m := i.after history (i.start input)
    (∀ program u, (i.toC p limit).run m = .ok program u →
      ∃ (calls : List Call) (called : List Text),
        let names := calls.mapIdx fun k c => Emission.nameAt c k
        CCode.Stretch (Text.pieces '\n' program.render) .outside .outside names names called ∧
        names.Nodup ∧ called ⊆ names ∧ calls.Nodup ∧
        ∀ c, c ∈ calls ↔ ∃ n, p.Reaches (i.Gives u) n c) ∧
    (i.CompilesQuietly m p →
      ((∃ e u, (i.toC p limit).run m = .error (.source e) u ∧ e.fault.kind = .expansion) ↔
        ∃ n c, p.Reaches (i.Gives m) n c ∧ ∀ k : Nat, p.Reaches (i.Gives m) k c → limit < k) ∧
      ((∃ program u, (i.toC p limit).run m = .ok program u) ↔
        ∀ n c, p.Reaches (i.Gives m) n c → ∃ k : Nat, k ≤ limit ∧ p.Reaches (i.Gives m) k c)) := by
  intro m
  constructor
  · intro program u written
    obtain ⟨bodies, compiles, emitted⟩ := Emission.run_toC written
    have words := isWord_of_compiles compiles emitted parsed (i.cached_after history input)
    have readable := emitted.isReadable words
    have lines := CCode.stretch_render readable
    have distinct := readable.distinct
    have called := emitted.called
    rw [emitted.names] at lines distinct called
    exact ⟨bodies.map Prod.fst, _, lines, distinct, called, emitted.distinct,
      fun c => mem_functions_iff compiles emitted⟩
  · intro quiet
    rcases Emission.run_toC_cases .source limit quiet.compilable (.refl m) i.blank.size with
      ⟨program, u, written, near⟩ | ⟨e, u, refused, kind, n, c, reaches, far⟩
    · constructor
      · constructor
        · rintro ⟨e, v, refused, -⟩
          cases written.symm.trans refused
        · rintro ⟨n, c, reaches, far⟩
          obtain ⟨k, within, shorter⟩ := near n c reaches
          have := far k shorter
          omega
      · exact ⟨fun _ => near, fun _ => ⟨program, u, written⟩⟩
    · constructor
      · exact ⟨fun _ => ⟨n, c, reaches, far⟩, fun _ => ⟨e, u, refused, kind⟩⟩
      · constructor
        · rintro ⟨program, v, written⟩
          cases refused.symm.trans written
        · intro near
          obtain ⟨k, within, shorter⟩ := near n c reaches
          have := far k shorter
          omega

/-- A function that is called with two arguments and calls another one. -/
def twoLevels : Interpreter :=
  ⟨{ source := "§g = -\n§f(x) = x g\nf(+) f(.)".toList, file := [] }, oneCell, {}⟩

def twoLevelCalls : List Call :=
  [⟨"f".toList, ["+".toList]⟩, ⟨"f".toList, [".".toList]⟩, ⟨"g".toList, []⟩]

def twoLevelNames : List Text := ["bf_f_0", "bf_f_1", "bf_g_2"].map String.toList

def twoLevelText : Text :=
  Text.join ['\n'] (["#include <stdio.h>", "", "unsigned char tape[1];", "int p = 0;", "",
    "void bf_f_0(void);", "void bf_f_1(void);", "void bf_g_2(void);", "",
    "void bf_f_0(void) \x7b", "    tape[p]++;", "    bf_g_2();", "\x7d", "",
    "void bf_f_1(void) \x7b", "    putchar(tape[p]);", "    bf_g_2();", "\x7d", "",
    "void bf_g_2(void) \x7b", "    tape[p]--;", "\x7d", "", "int main(void) \x7b",
    "    bf_f_0();", "    bf_f_1();", "    return 0;", "\x7d", ""].map String.toList)

/-- How writing the program in C ends under a limit, once it is parsed. -/
def twoLevelWritten (limit : Int) : EStateM.Result Fault Machine CProgram :=
  (twoLevels.parse >>= fun p => twoLevels.toC p limit).run (twoLevels.start [])

/-- The program is refused for its expansion. -/
def isRefused : EStateM.Result Fault Machine CProgram → Bool
  | .error (.source e) _ => decide (e.fault.kind = .expansion)
  | _ => false

/-- The body of a call is given, declares nothing and makes no call but those of the two levels. -/
def staysWithin (m : Machine) : EStateM.Result Fault Machine Program → Bool
  | .error _ _ => false
  | .ok q u => decide (u.definitions = m.definitions ∧ q.callees ⊆ twoLevelCalls)

/-- The program makes only calls of the two levels, and so do their bodies. -/
def hasTwoLevels : EStateM.Result Fault Machine Program → Bool
  | .error _ _ => false
  | .ok p m => decide (p.callees ⊆ twoLevelCalls) &&
    twoLevelCalls.all fun c => staysWithin m ((twoLevels.bodyOf c.name c.args).run m)

/-- Two levels of calls are three C functions, and are refused under a limit of one. -/
theorem toC_functions_twoLevels : ∃ p m program u called,
    twoLevels.parse.run (twoLevels.start []) = .ok p m ∧ twoLevels.CompilesQuietly m p ∧
    (twoLevels.toC p 2).run m = .ok program u ∧ program.render = twoLevelText ∧
    CCode.Stretch (Text.pieces '\n' twoLevelText) .outside .outside twoLevelNames
      twoLevelNames called ∧
    (∃ e v, (twoLevels.toC p 1).run m = .error (.source e) v ∧ e.fault.kind = .expansion) ∧
    ∃ n c, p.Reaches (twoLevels.Gives m) n c ∧
      ∀ k : Nat, p.Reaches (twoLevels.Gives m) k c → (1 : Int) < k := by
  have bare : twoLevels.IsBare := ⟨fun _ => rfl, rfl⟩
  have text : (outcome (twoLevelWritten 2)).toOption.map (·.render) = some twoLevelText := by
    decide +kernel
  have declared : (Text.pieces '\n' twoLevelText).filterMap
      (fun line => (CCode.lineOf line).declared?) = twoLevelNames := by
    decide +kernel
  have tooDeep : isRefused (twoLevelWritten 1) = true := by decide +kernel
  have closed : hasTwoLevels (twoLevels.parse.run (twoLevels.start [])) = true := by decide +kernel
  cases read : twoLevels.parse.run (twoLevels.start []) with
  | error fault m =>
    rw [read] at closed
    cases closed
  | ok p m =>
    obtain ⟨tokens, -, parsed, -⟩ := bare.exists_parse read
    have here : twoLevels.after [.parse] (twoLevels.start []) = m := by
      rw [after, List.foldl_cons, List.foldl_nil, answer, endState_bind_pure, read, endState]
    have quiet : twoLevels.CompilesQuietly m p := by
      rw [read] at closed
      simp only [hasTwoLevels, Bool.and_eq_true, decide_eq_true_eq, List.all_eq_true] at closed
      refine compilesQuietly_of_closed closed.1 ?_
      intro c member
      have compiles := closed.2 c member
      cases ran : (twoLevels.bodyOf c.name c.args).run m with
      | error fault u =>
        rw [ran] at compiles
        cases compiles
      | ok q u =>
        rw [ran] at compiles
        exact ⟨q, u, rfl, of_decide_eq_true compiles⟩
    have first := toC_functions twoLevels [.parse] [] parsed 2
    have second := toC_functions twoLevels [.parse] [] parsed 1
    rw [here] at first second
    simp only [twoLevelWritten, run_bind_of_ok read] at text tooDeep
    cases written : (twoLevels.toC p 2).run m with
    | error fault u =>
      rw [written] at text
      cases text
    | ok program u =>
      obtain ⟨calls, called, lines, -⟩ := first.1 program u written
      rw [written] at text
      have rendered : program.render = twoLevelText := Option.some.inj text
      rw [rendered] at lines
      rw [lines.declared.symm.trans declared] at lines
      have refused : ∃ e v, (twoLevels.toC p 1).run m = .error (.source e) v ∧
          e.fault.kind = .expansion := by
        unfold isRefused at tooDeep
        split at tooDeep
        · rename_i e v refused
          exact ⟨e, v, refused, of_decide_eq_true tooDeep⟩
        · cases tooDeep
      exact ⟨p, m, program, u, called, rfl, quiet, written, rendered, lines, refused,
        (second.2 quiet).1.mp refused⟩

end Interpreter
end TapeLang
