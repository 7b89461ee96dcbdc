import TapeLang.Machine.CCode
import TapeLang.Proofs.CCode.Emission
import TapeLang.Proofs.CCode.Execution
import TapeLang.Proofs.Machine.Closure

/-! The C program of a program does what the machine does. A structured run is followed
statement by statement by the C statements; a call of a function with arguments is the call of
the one C function that was written for them. -/
namespace TapeLang

open CCode (Executes)
open Emission (Compiles Emitted)

/-- A world and a state of a C program that hold the same. -/
structure Matches (tapeSize : Nat) (w : World) (s : CCode.State) : Prop where
  size : w.tape.size = tapeSize
  cells : s.cells = w.tape.cell
  index : s.index = w.tape.pointer
  input : w.input = s.input.map fun byte => (byte.toNat : Int)
  output : s.output = w.output

namespace Matches

variable {tapeSize : Nat} {w u : World} {s : CCode.State}

/-- Counters do not matter. -/
theorem congr (same : Matches tapeSize w s) (counters : Counters) :
    Matches tapeSize { w with counters } s :=
  ⟨same.size, same.cells, same.index, same.input, same.output⟩

theorem step (same : Matches tapeSize w s) : Matches tapeSize w.step s := same.congr _

theorem bracket (same : Matches tapeSize w s) : Matches tapeSize w.bracket s := same.congr _

/-- The index is within the tape. -/
theorem cell? (same : Matches tapeSize w s) : s.cell? tapeSize = some w.tape.get := by
  have inside : w.tape.pointer < tapeSize := by
    have := w.tape.pointer_le_peak
    have := w.tape.peak_lt_size
    have := same.size
    omega
  rw [CCode.State.cell?, same.index, if_pos (by omega), Int.toNat_natCast, same.cells,
    Tape.get_eq_cell]

theorem write (same : Matches tapeSize w s) {value : Int} {tape : Tape}
    (written : w.tape.set value = .ok tape) :
    Matches tapeSize { w with tape } (s.store (UInt8.ofNat value.toNat)) := by
  refine ⟨?_, ?_, ?_, same.input, same.output⟩
  · exact (Tape.size_set written).trans same.size
  · funext k
    simp only [CCode.State.store, Tape.cell_set written, same.index, Int.toNat_natCast, same.cells]
  · exact same.index.trans (congrArg Nat.cast (Tape.pointer_set written).symm)

theorem move (same : Matches tapeSize w s) {offset : Int} {tape : Tape}
    (moved : w.tape.move offset = .ok tape) :
    Matches tapeSize { w with tape } { s with index := s.index + offset } := by
  refine ⟨?_, ?_, ?_, same.input, same.output⟩
  · exact (Tape.size_move moved).trans same.size
  · funext k
    rw [same.cells]
    exact (Tape.cell_move moved k).symm
  · dsimp only
    rw [Tape.pointer_move moved, same.index]

/-- An action that succeeds is one of the C program. -/
theorem act (same : Matches tapeSize w s) {refuses : Array UInt8 → UInt8 → Option Text}
    {action : Action} (acted : w.act refuses action = .ok () u) :
    ∃ t, s.act tapeSize action = some t ∧ Matches tapeSize u t := by
  cases action with
  | increment =>
    simp only [World.act] at acted
    obtain ⟨tape, written, rfl⟩ := World.takeTape_eq_ok acted
    have byte : UInt8.ofNat ((w.tape.get.toNat : Int) + 1).toNat = w.tape.get + 1 := by
      have number : ((w.tape.get.toNat : Int) + 1).toNat = w.tape.get.toNat + 1 := by omega
      rw [number, UInt8.ofNat_add, UInt8.ofNat_toNat]
      rfl
    refine ⟨s.store (w.tape.get + 1), ?_, ?_⟩
    · rw [CCode.State.act, same.cell?, Option.map_some]
    · rw [← byte]
      exact (same.write written).congr _
  | decrement =>
    simp only [World.act] at acted
    obtain ⟨tape, written, rfl⟩ := World.takeTape_eq_ok acted
    have byte : UInt8.ofNat ((w.tape.get.toNat : Int) + -1).toNat = w.tape.get - 1 := by
      have bounds := Tape.bounds_set written
      have number : ((w.tape.get.toNat : Int) + -1).toNat = w.tape.get.toNat - 1 := by omega
      rw [number, UInt8.ofNat_sub (by omega), UInt8.ofNat_toNat]
      rfl
    refine ⟨s.store (w.tape.get - 1), ?_, ?_⟩
    · rw [CCode.State.act, same.cell?, Option.map_some]
    · rw [← byte]
      exact (same.write written).congr _
  | left =>
    simp only [World.act] at acted
    obtain ⟨tape, moved, rfl⟩ := World.takeTape_eq_ok acted
    exact ⟨_, rfl, (same.move moved).congr _⟩
  | right =>
    simp only [World.act] at acted
    obtain ⟨tape, moved, rfl⟩ := World.takeTape_eq_ok acted
    exact ⟨_, rfl, (same.move moved).congr _⟩
  | output =>
    simp only [World.act] at acted
    cases refused : refuses w.output w.tape.get with
    | some message => rw [refused] at acted; cases acted
    | none =>
      rw [refused] at acted
      cases acted
      refine ⟨{ s with output := s.output.push w.tape.get }, ?_, ?_⟩
      · rw [CCode.State.act, same.cell?, Option.map_some]
      · exact ⟨same.size, same.cells, same.index, same.input, by rw [same.output]⟩
  | input =>
    obtain ⟨cells, index, input, output⟩ := s
    simp only [World.act] at acted
    cases input with
    | nil =>
      have none : w.input = [] := same.input
      rw [none] at acted
      cases acted
    | cons byte input =>
      have given : w.input = (byte.toNat : Int) :: input.map fun byte => (byte.toNat : Int) :=
        same.input
      rw [given] at acted
      dsimp only at acted
      rw [if_neg (by omega)] at acted
      obtain ⟨tape, written, rfl⟩ := World.takeTape_eq_ok acted
      have rest : Matches tapeSize { w with input := input.map fun byte => (byte.toNat : Int) }
          ⟨cells, index, input, output⟩ :=
        ⟨same.size, same.cells, same.index, rfl, same.output⟩
      have stored := rest.write written
      rw [Int.toNat_natCast, UInt8.ofNat_toNat] at stored
      refine ⟨_, ?_, stored.congr _⟩
      have here := same.cell?
      rw [CCode.State.act, here, Option.map_some]
      rfl

end Matches

namespace Interpreter

variable {i : Interpreter} {dictionary : Dictionary} {calls : List Call}
variable {m u : Machine} {bodies : List (Call × Program)}

theorem extends_of_compiles (compiles : Compiles i.bodyOf m bodies u) :
    u.definitions.Extends m.definitions := by
  induction compiles with
  | nil => exact .refl _
  | cons compiled _ ih => exact ih.trans (extends_of_bodyOf compiled)

/-- Each call compiles to its body, and declares nothing. -/
def CompileTo (i : Interpreter) (dictionary : Dictionary) (bodies : List (Call × Program)) :
    Prop :=
  ∀ body ∈ bodies, dictionary.compile i.setup.expansionLimit body.1 = .ok body.2 dictionary

/-- Where compiling calls in turn declares nothing, each is compiled as if alone. -/
theorem Settled.of_compiles (settled : i.Settled dictionary m)
    (compiles : Compiles i.bodyOf m bodies u) (kept : u.definitions = dictionary) :
    i.CompileTo dictionary bodies := by
  induction compiles with
  | nil => nofun
  | @cons m v u c p rest compiled more ih =>
    have between : v.definitions = dictionary := by
      have grown := extends_of_bodyOf compiled
      have left := extends_of_compiles more
      rw [settled.definitions] at grown
      rw [kept] at left
      exact grown.antisymm left
    obtain ⟨alone, settled⟩ := settled.bodyOf compiled between
    exact List.forall_mem_cons.mpr ⟨alone, ih settled kept⟩

/-- The functions of a C program are the bodies of calls that stay among themselves. -/
structure Implements (i : Interpreter) (dictionary : Dictionary) (calls : List Call)
    (label : Text → List Text → Text) (program : CProgram) : Prop where
  function : ∀ c ∈ calls, ∃ q f, dictionary.body i.setup.expansionLimit c = .ok q ∧
    q.callees ⊆ calls ∧ program.functions.find? (·.name == label c.name c.args) = some f ∧
    f.body = Statement.nodes label q.block

/-- A structured run that ends well is an execution of the C program. -/
theorem executes_of_runs {label : Text → List Text → Text} {program : CProgram}
    (implements : i.Implements dictionary calls label program) {depth : Nat}
    {block : List Statement} {w v : World} (runs : Runs i dictionary depth block w (.ok () v))
    (inside : Statement.blockCalls block ⊆ calls) {s : CCode.State}
    (same : Matches program.tapeSize w s) :
    ∃ t, Executes program (Statement.nodes label block) s t ∧ Matches program.tapeSize v t := by
  have inFirst {statement : Statement} {rest : List Statement}
      (inside : Statement.blockCalls (statement :: rest) ⊆ calls) : statement.calls ⊆ calls :=
    fun c member => inside (List.mem_append_left _ member)
  have inRest {statement : Statement} {rest : List Statement}
      (inside : Statement.blockCalls (statement :: rest) ⊆ calls) :
      Statement.blockCalls rest ⊆ calls :=
    fun c member => inside (List.mem_append_right _ member)
  generalize ended : (EStateM.Result.ok () v : RunResult) = result at runs
  induction runs generalizing s v with
  | nil =>
    cases ended
    exact ⟨s, .nil, same⟩
  | act acted _ ih =>
    obtain ⟨t, action, between⟩ := same.act acted
    obtain ⟨last, rest, final⟩ := ih inside between.step ended
    exact ⟨last, .act action rest, final⟩
  | actFails => cases ended
  | skip zero _ ih =>
    have cell := same.cell?
    rw [zero] at cell
    obtain ⟨last, rest, final⟩ := ih (inRest inside) same.bracket ended
    exact ⟨last, .leave cell rest, final⟩
  | bodyFails => cases ended
  | leave nonzero _ zero _ ihBody ihRest =>
    obtain ⟨t, pass, between⟩ := ihBody (inFirst inside) same.bracket rfl
    have cell := between.cell?
    rw [zero] at cell
    obtain ⟨last, rest, final⟩ := ihRest (inRest inside) between.bracket ended
    exact ⟨last, .again same.cell? nonzero pass (.leave cell rest), final⟩
  | again nonzero _ _ _ ihBody ihAgain =>
    obtain ⟨t, pass, between⟩ := ihBody (inFirst inside) same.bracket rfl
    obtain ⟨last, rest, final⟩ := ihAgain inside between.bracket ended
    exact ⟨last, .again same.cell? nonzero pass rest, final⟩
  | tooDeep => cases ended
  | refused => cases ended
  | calleeFails => cases ended
  | call room compiled _ _ ihBody ihRest =>
    have called := inFirst inside List.mem_cons_self
    obtain ⟨q, f, body, closed, found, written⟩ := implements.function _ called
    cases compiled.symm.trans body
    have inBody := List.Subset.trans (Program.blockCalls_subset _) closed
    obtain ⟨t, callee, between⟩ := ihBody inBody same.step rfl
    obtain ⟨last, rest, final⟩ := ihRest (inRest inside) between ended
    rw [← written] at callee
    exact ⟨last, .call found callee rest, final⟩

section

variable {p : Program} {size : Nat} {program : CProgram}

/-- Functions that are emitted for bodies implement their calls. -/
theorem implements_of_emitted (emitted : Emitted p size bodies program)
    (alone : i.CompileTo dictionary bodies) :
    i.Implements dictionary (bodies.map Prod.fst) (Emission.labelOf (bodies.map Prod.fst))
      program := by
  constructor
  intro c member
  obtain ⟨body, listed, rfl⟩ := List.mem_map.mp member
  refine ⟨body.2, _, ?_, emitted.inner body listed, emitted.find?_function listed, rfl⟩
  rw [Dictionary.body, alone body listed]
  rfl

theorem closed_of_emitted (emitted : Emitted p size bodies program)
    (alone : i.CompileTo dictionary bodies) :
    i.Closed dictionary (bodies.map Prod.fst) := by
  intro c member
  obtain ⟨body, listed, rfl⟩ := List.mem_map.mp member
  exact ⟨body.2, alone body listed, emitted.inner body listed⟩

/-- The functions that are emitted for a parsed program have names of word characters. -/
theorem isWord_of_emitted {source : Source} {tokens : List Token} {before : Dictionary}
    (parsed : (source.parse tokens).run before = .ok p dictionary)
    (emitted : Emitted p size bodies program)
    (alone : i.CompileTo dictionary bodies) :
    ∀ c ∈ bodies.map Prod.fst, ∀ ch ∈ c.name, Text.isWord ch = true := by
  intro c member
  obtain ⟨n, reaches⟩ := emitted.reached c member
  cases reaches with
  | outermost called => exact Source.isWord_of_callees parsed c called
  | inner _ listed called =>
    obtain ⟨_, _, compiled⟩ := Dictionary.exists_parse (alone _ listed)
    exact Source.isWord_of_callees compiled c called

end

/-- What parsing on a machine that has compiled no call leaves. -/
theorem IsBare.exists_parse (bare : i.IsBare) {given : List Int} {p : Program}
    (read : i.parse.run (i.start given) = .ok p m) :
    ∃ tokens, i.tokens = .ok tokens ∧
      (i.source.parse tokens).run i.base = .ok p p.definitions ∧ i.Settled p.definitions m := by
  cases lexed : i.tokens with
  | error e =>
    unfold parse at read
    rw [lexed] at read
    cases read
  | ok tokens =>
    rw [bare.run_parse lexed] at read
    cases parsed : (i.source.parse tokens).run (i.start given).definitions with
    | error e left => rw [parsed] at read; cases read
    | ok q left =>
      rw [parsed] at read
      cases read
      have same := Source.definitions_eq parsed
      refine ⟨tokens, rfl, ?_, same.symm, ?_⟩
      · rw [same]
        exact parsed
      · intro c q known
        cases known

/-- A new machine has a tape of zeros. -/
theorem blank_of_load {s : Setup} (loaded : s.load = .ok i) :
    i.blank.cell = (fun _ => 0) ∧ i.blank.pointer = 0 := by
  obtain ⟨-, made, -⟩ := Setup.load_eq_ok_iff.mp loaded
  obtain ⟨visited, pointer⟩ := Tape.ofSize?_eq_some made
  refine ⟨?_, pointer⟩
  funext k
  rw [Tape.cell, visited]
  cases k <;> rfl

/-- The C program of a source computes what running the source does. -/
theorem computes_of_run {s : Setup} (loaded : s.load = .ok i) (bare : i.IsBare)
    {given : List Int} {p : Program} (read : i.parse.run (i.start given) = .ok p m)
    {limit : Int} {program : CProgram} (written : (i.toC p limit).run m = .ok program u)
    (kept : u.definitions = p.definitions)
    {bytes : List UInt8} {fuel : Nat} {ended : Machine}
    (ran : (i.run fuel).run (i.start (bytes.map fun byte => (byte.toNat : Int))) =
      .ok .finished ended) :
    ∃ t, (∀ v, CCode.Computes program.render bytes v ↔ v = t) ∧ t.output = ended.output ∧
      t.cells = ended.tape.cell ∧ t.index = ended.tape.pointer := by
  obtain ⟨tokens, lexed, parsed, settled⟩ := bare.exists_parse read
  obtain ⟨bodies, compiles, emitted⟩ := Emission.run_toC written
  have alone := settled.of_compiles compiles kept
  have steady (fresh : Machine) : i.Steady p.definitions (i.started fresh p) :=
    (within_started parsed emitted.closed).steady bare (closed_of_emitted emitted alone)
  have readable := emitted.isReadable (isWord_of_emitted parsed emitted alone)
  -- the run is the structured run of the program, which the C statements follow
  have ends := (bare.run_finished_iff_ends lexed parsed ended.world).mp ⟨fuel, ended, ran, rfl⟩
  have runs := (ends_started_iff_runs bare parsed (steady _) _).mp ends
  obtain ⟨cells, pointer⟩ := blank_of_load loaded
  have same : Matches program.tapeSize (i.startWorld (i.start _) p) (.start bytes) :=
    ⟨emitted.tapeSize.symm, cells.symm, (congrArg Nat.cast pointer).symm, rfl, rfl⟩
  have inside := List.Subset.trans p.blockCalls_subset emitted.closed
  obtain ⟨t, executes, final⟩ :=
    executes_of_runs (implements_of_emitted emitted alone) runs inside same
  rw [← emitted.main] at executes
  refine ⟨t, ?_, final.output, final.cells, final.index⟩
  intro v
  rw [CCode.computes_render_iff readable]
  constructor
  · intro computes
    exact computes.unique executes
  · rintro rfl
    exact executes

/-- A byte is read, and written and counted down by a function until it is zero. -/
def countdown : Setup := { source := "§f(x) = x-\n,[f(.)]".toList, file := [], tapeSize := 1 }

def countdownMachine : Interpreter := ⟨countdown, oneCell, {}⟩

/-- How writing its C program ends. -/
def countdownWritten : EStateM.Result Fault Machine CProgram :=
  (countdownMachine.parse >>= fun p => countdownMachine.toC p 64).run (countdownMachine.start [])

def countdownText : Text :=
  Text.join ['\n'] (["#include <stdio.h>", "", "unsigned char tape[1];", "int p = 0;", "",
    "void bf_f_0(void);", "", "void bf_f_0(void) \x7b", "    putchar(tape[p]);",
    "    tape[p]--;", "\x7d", "", "int main(void) \x7b", "    tape[p] = getchar();",
    "    while (tape[p]) \x7b", "        bf_f_0();", "    \x7d", "    return 0;", "\x7d",
    ""].map String.toList)

/-- How its run on the input of a two ends. -/
def countdownRun : EStateM.Result Fault Machine Ending :=
  (countdownMachine.run 15).run (countdownMachine.start [2])

/-- The C text of the countdown writes the bytes that its run writes on the same input. -/
theorem computes_countdown :
    ∃ p m program u ended, countdown.load = .ok countdownMachine ∧
      countdownMachine.parse.run (countdownMachine.start []) = .ok p m ∧
      (countdownMachine.toC p 64).run m = .ok program u ∧ u.definitions = p.definitions ∧
      countdownRun = .ok .finished ended ∧ program.render = countdownText ∧
      ∃ t, (∀ v, CCode.Computes countdownText [2] v ↔ v = t) ∧ t.output = #[2, 1] ∧
        t.index = 0 := by
  have loaded : countdown.load = .ok countdownMachine := rfl
  have bare : countdownMachine.IsBare := ⟨fun _ => rfl, rfl⟩
  have text : (outcome countdownWritten).toOption.map (·.render) = some countdownText := by
    decide +kernel
  have kept : (endState countdownWritten).definitions =
      (endState (countdownMachine.parse.run (countdownMachine.start []))).definitions := by
    decide +kernel
  have finished : ((outcome countdownRun).toOption, (endState countdownRun).output,
      (endState countdownRun).tape.pointer) = (some .finished, #[2, 1], 0) := by
    decide +kernel
  cases written : countdownWritten with
  | error fault u =>
    rw [written] at text
    cases text
  | ok program u =>
    obtain ⟨p, m, read, written'⟩ := run_bind_eq_ok_iff.mp written
    obtain ⟨-, -, -, settled⟩ := bare.exists_parse read
    rw [written, read] at kept
    have same : u.definitions = p.definitions := kept.trans settled.definitions
    rw [written] at text
    have rendered : program.render = countdownText := Option.some.inj text
    cases ended : countdownRun with
    | error fault v =>
      rw [ended] at finished
      cases finished
    | ok ending v =>
      rw [ended] at finished
      simp only [outcome, endState, Except.toOption, Prod.mk.injEq, Option.some.injEq] at finished
      obtain ⟨rfl, output, pointer⟩ := finished
      have ran : (countdownMachine.run 15).run (countdownMachine.start
          ([2].map fun byte : UInt8 => (byte.toNat : Int))) = .ok .finished v := ended
      obtain ⟨t, computes, written, -, index⟩ := computes_of_run loaded bare read written' same ran
      rw [rendered] at computes
      rw [output] at written
      rw [pointer] at index
      exact ⟨p, m, program, u, v, loaded, read, written', same, rfl, rendered, t, computes, written,
        index⟩

end Interpreter
end TapeLang
