import TapeLang.Proofs.Bitmap
import TapeLang.Proofs.Machine.Invariant

/-! The forms of a program run alike: its source, the same text executed at once, its short form
and, where it calls no function, its drawing. -/
namespace TapeLang

/-- What a machine shows: tape, output and counters, the lines of its trace, and the frames with
their names, numbers and cursors. -/
structure Shown where
  tape : Tape
  output : Array UInt8
  counters : Counters
  lines : Array Text
  frames : List (Text × Nat × Nat)
deriving DecidableEq

def Machine.shown (m : Machine) : Shown :=
  { tape := m.tape, output := m.output, counters := m.counters
    lines := m.trace.map StepRecord.line
    frames := m.stack.map fun frame => (frame.name, frame.number, frame.cursor) }

/-- How work ends and what it shows then; of an error all but its place. -/
def shownEnd {α : Type} : EStateM.Result Fault Machine α → Except Fault α × Shown
  | .ok a m => (.ok a, m.shown)
  | .error fault m => (.error fault.unplaced, m.shown)

theorem Machine.Alike.shown {calling : Prop} {m n : Machine} (alike : m.Alike calling n) :
    m.shown = n.shown := by
  have frames : m.stack.map (fun frame => (frame.name, frame.number, frame.cursor)) =
      n.stack.map fun frame => (frame.name, frame.number, frame.cursor) := by
    rw [← List.forall₂_eq_eq_eq, List.forall₂_map_left_iff, List.forall₂_map_right_iff]
    exact alike.stack.imp fun f g same => by rw [same.name, same.number, same.cursor]
  have output : m.output = n.output := congrArg World.output alike.world
  unfold Machine.shown
  rw [alike.tape, output, alike.counters, alike.trace, frames]

namespace Interpreter

variable {i : Interpreter} {m n : Machine} {tokens : List Token} {dictionary : Dictionary}
variable {p q : Program}

theorem EndsAlike.shownEnd {α : Type} {calling : Prop} {x y : EStateM.Result Fault Machine α}
    (alike : EndsAlike calling Eq x y) : shownEnd x = shownEnd y := by
  cases alike with
  | ok same machines => rw [TapeLang.shownEnd, TapeLang.shownEnd, same, machines.shown]
  | error faults machines =>
    rw [TapeLang.shownEnd, TapeLang.shownEnd, faults.unplaced, machines.shown]

/-- Programs that are alike start on machines that are alike. -/
theorem started_alike {j : Interpreter} (programs : p.Alike q) (blank : i.blank = j.blank)
    (input : m.input = n.input) (output : m.output = n.output)
    (trace : m.trace.map StepRecord.line = n.trace.map StepRecord.line) :
    (i.started m p).Alike (p.calls ≠ []) (j.started n q) := by
  have size : p.size = q.size := by
    have sizes := congrArg Array.size programs.code
    rwa [Array.size_map, Array.size_map] at sizes
  have calls : callsOf p.instructions ≠ [] → p.calls ≠ [] := by
    intro some_call flat
    apply some_call
    rw [callsOf, List.filterMap_eq_nil_iff]
    intro op member
    obtain ⟨c, rfl⟩ := Program.exists_command flat member
    rfl
  refine ⟨?_, rfl, rfl, trace, ?_, programs.definitions, fun _ _ => rfl⟩
  · simp only [Machine.world, started, reset, blank, input, output, size]
  · exact .cons ⟨rfl, rfl, rfl, programs.code, calls⟩ .nil

/-- With a sink that takes every byte, a run is the execution of its program. -/
theorem IsBare.run_eq_execute (bare : i.IsBare)
    (accepting : ∀ taken byte, i.setup.refuses taken byte = none) (lexed : i.tokens = .ok tokens)
    (parsed : (i.source.parse tokens).run i.base = .ok p dictionary) (fuel : Nat) (m : Machine) :
    (i.run fuel).run m = (i.execute fuel).run (i.started m p) := by
  have itself : p.Alike p := ⟨rfl, fun _ => .refl _⟩
  have alike := execute_alike bare accepting fuel
    (started_alike (i := i) (j := i) (m := m) (n := m) itself rfl rfl rfl rfl)
  rw [bare.run_run lexed parsed]
  cases executed : (i.execute fuel).run (i.started m p) with
  | ok ending u => rfl
  | error fault u =>
    rw [executed] at alike
    cases alike with
    | error faults _ =>
      cases fault with
      | source | runtime => rfl
      | foreign message => exact absurd rfl (faults.inside message)

/-- Executing a text on a new machine is executing its program as a run does. -/
theorem IsBare.run_evaluate (bare : i.IsBare) {file text : Text}
    (lexed : tokenize file text = .ok tokens)
    (parsed : ((i.sourceOf file text).parse tokens).run i.base = .ok p dictionary) (fuel : Nat)
    (input : List Int) :
    ((·.2) <$> i.evaluate fuel file text).run (i.start input) =
      (i.execute fuel).run (i.started (i.start input) p) := by
  have read : i.readText file text (i.start input).definitions = .ok p := by
    rw [readText_of_tokenize lexed, show (i.start input).definitions = i.base from rfl, parsed]
    rfl
  rw [map_eq_pure_bind, EStateM.run_bind, bare.evaluate_eq, read, started_eq_entering]
  have fresh : i.reset (i.start input) = i.start input := rfl
  rw [fresh]
  dsimp only
  cases (i.execute fuel).run ((i.start input).entering p) <;> rfl

/-- The same set-up for another program. -/
def reading (i : Interpreter) (source file : Text) (tokens : Option (List Token)) : Interpreter :=
  { i with setup := { i.setup with source, file, tokens } }

theorem execute_reading (source file : Text) (tokens : Option (List Token)) (fuel : Nat) :
    (i.reading source file tokens).execute fuel = i.execute fuel := by
  induction fuel with
  | zero => rfl
  | succ fuel ih =>
    unfold execute
    rw [ih]
    rfl

theorem load_reading {s : Setup} (loaded : s.load = .ok i) (source file : Text)
    (tokens : Option (List Token)) :
    Setup.load { s with source, file, tokens } = .ok (i.reading source file tokens) := by
  obtain ⟨rfl, made, read⟩ := Setup.load_eq_ok_iff.mp loaded
  exact Setup.load_eq_ok_iff.mpr ⟨rfl, made, read⟩

section

variable (bare : i.IsBare) (accepting : ∀ taken byte, i.setup.refuses taken byte = none)
variable (lexed : i.tokens = .ok tokens)
variable (parsed : (i.source.parse tokens).run i.base = .ok p dictionary)
variable {source file : Text} {given : Option (List Token)} {tokens' : List Token}
variable {left : Dictionary}

include bare accepting lexed parsed

/-- A machine set up with a program that is alike shows what the first one shows. -/
theorem shownEnd_run (lexed' : (i.reading source file given).tokens = .ok tokens')
    (parsed' : ((i.reading source file given).source.parse tokens').run i.base = .ok q left)
    (programs : p.Alike q) (fuel : Nat) (input : List Int) :
    shownEnd (((i.reading source file given).run fuel).run
        ((i.reading source file given).start input)) =
      shownEnd ((i.run fuel).run (i.start input)) := by
  have bare' : (i.reading source file given).IsBare := ⟨bare.events, bare.rules⟩
  rw [bare.run_eq_execute accepting lexed parsed, bare'.run_eq_execute accepting lexed' parsed',
    execute_reading]
  exact (execute_alike bare accepting fuel
    (started_alike programs rfl rfl rfl rfl)).shownEnd.symm

/-- So does a machine that executes a text of such a program. -/
theorem shownEnd_evaluate {text name : Text} (lexed' : tokenize name text = .ok tokens')
    (parsed' : ((i.sourceOf name text).parse tokens').run i.base = .ok q left)
    (programs : p.Alike q) (fuel : Nat) (input : List Int) :
    shownEnd (((·.2) <$> (i.reading source file given).evaluate fuel name text).run
        ((i.reading source file given).start input)) =
      shownEnd ((i.run fuel).run (i.start input)) := by
  have bare' : (i.reading source file given).IsBare := ⟨bare.events, bare.rules⟩
  rw [bare.run_eq_execute accepting lexed parsed, bare'.run_evaluate lexed' parsed',
    execute_reading]
  exact (execute_alike bare accepting fuel
    (started_alike programs rfl rfl rfl rfl)).shownEnd.symm

end

/-- Without extensions, and with a sink that takes every byte, a source that parses shows the same
in whatever form it runs: as it is, as a text executed on a new machine, in its short form and,
where it has no call, as its drawing. All forms finish, or all fail with the same error, places
aside. -/
theorem run_forms {s : Setup} (loaded : s.load = .ok i) (textual : s.tokens = none)
    (plain : s.services = {}) (accepting : ∀ taken byte, s.refuses taken byte = none)
    (read : Program.ofText s.file s.source s.expansionLimit = .ok p) (input : List Int)
    (fuel : Nat) :
    let shown := shownEnd ((i.run fuel).run (i.start input))
    (∀ source name file, ∃ j, Setup.load { s with source, file := name } = .ok j ∧
      shownEnd (((·.2) <$> j.evaluate fuel file s.source).run (j.start input)) = shown) ∧
    (∀ file, ∃ j, Setup.load { s with source := p.shortForm, file } = .ok j ∧
      shownEnd ((j.run fuel).run (j.start input)) = shown) ∧
    (p.calls = [] → ∀ side : Nat, 0 < side →
      ∃ image, Bitmap.encode p.instructions side = .ok image ∧
        ∀ picture, image.Same picture → ∃ drawn, Bitmap.decode picture side = .ok drawn ∧
          ∀ source file, ∃ j, Setup.load { s with source, file, tokens := some drawn } = .ok j ∧
            shownEnd ((j.run fuel).run (j.start input)) = shown) := by
  obtain ⟨rfl, made, fresh⟩ := Setup.load_eq_ok_iff.mp loaded
  have bare : i.IsBare := by
    constructor
    · intro e
      rw [plain]
    · rw [plain]
  have base : i.base = {} := by
    rw [Setup.freshTable, plain] at fresh
    exact (Except.ok.inj fresh).symm
  obtain ⟨tokens, lexed, parsed⟩ := Program.ofText_eq_ok_iff.mp read
  rw [← base] at parsed
  have own : i.tokens = .ok tokens := by
    rw [Interpreter.tokens, textual]
    exact lexed
  refine ⟨?_, ?_, ?_⟩
  · intro source name file
    obtain ⟨q, left, parsed', programs⟩ := Source.exists_parse_elsewhere parsed
      (show (i.sourceOf file i.setup.source).limit = i.source.limit from rfl) (.refl i.base)
    refine ⟨_, load_reading loaded source name i.setup.tokens, ?_⟩
    exact shownEnd_evaluate bare accepting own parsed (Lexer.tokenize_elsewhere lexed file)
      parsed' programs fuel input
  · intro file
    obtain ⟨tokens', between, items, lexed', definitions, expands, spells⟩ :=
      Program.expands_shortForm read file i.setup.expansionLimit
    obtain ⟨q, parsed', code⟩ := Source.exists_parse_of_spells parsed expands spells
    rw [← base] at parsed'
    have programs : p.Alike q := by
      refine ⟨code.symm, fun calls => ?_⟩
      rw [Source.definitions_eq parsed']
      exact Dictionary.alike_iff.mpr (definitions calls).symm
    refine ⟨_, load_reading loaded p.shortForm file i.setup.tokens, ?_⟩
    apply shownEnd_run bare accepting own parsed ?_ parsed' programs
    rw [Interpreter.tokens, reading, textual]
    exact lexed'
  · intro flat side positive
    obtain ⟨image, encoded, -, -, shows⟩ := Bitmap.decode_encode_spelling flat positive
    refine ⟨image, encoded, fun picture same => ?_⟩
    obtain ⟨drawn, decoded, spelled⟩ := shows picture same
    refine ⟨drawn, decoded, fun source file => ?_⟩
    refine ⟨_, load_reading loaded source file (some drawn), ?_⟩
    obtain ⟨q, parsed', code⟩ := Bitmap.exists_parse_of_spelling parsed flat spelled
      (i.reading source file (some drawn)).source i.base
    have programs : p.Alike q := ⟨code.symm, fun calls => absurd flat calls⟩
    exact shownEnd_run bare accepting own parsed rfl parsed' programs fuel input

/-- Writes the values below the one it reads, down to zero, then leaves the tape. -/
def descent : Setup where
  source := "$m(x) = x.\n,[m(-)]<".toList
  file := []
  verbose := true
  traced := true
  tapeSize := 3

/-- The descent fails at its last step in every form. -/
theorem run_forms_descent : ∃ i p image drawn j k, descent.load = .ok i ∧
    Program.ofText [] descent.source 64 = .ok p ∧ p.shortForm = ",[-.]<".toList ∧
    Setup.load { descent with source := p.shortForm } = .ok j ∧
    Bitmap.encode p.instructions 2 = .ok image ∧ Bitmap.decode image (2 : Nat) = .ok drawn ∧
    Setup.load { descent with source := [], tokens := some drawn } = .ok k ∧
    (shownEnd ((i.run 20).run (i.start [2]))).1 =
      .error (.runtime { fault := .tape (.pointerOutside (-1) 3), rule := some "LEFT".toList
                         step := some 9 }) ∧
    shownEnd ((j.run 20).run (j.start [2])) = shownEnd ((i.run 20).run (i.start [2])) ∧
    shownEnd ((k.run 20).run (k.start [2])) = shownEnd ((i.run 20).run (i.start [2])) := by
  have failed : descent.load.toOption.map (fun i =>
      (shownEnd ((i.run 20).run (i.start [2]))).1) = some (.error (.runtime
        { fault := .tape (.pointerOutside (-1) 3), rule := some "LEFT".toList
          step := some 9 })) := by
    decide +kernel
  have written : (Program.ofText [] descent.source 64).toOption.map
      (fun p => (p.shortForm, p.calls)) = some (",[-.]<".toList, []) := by
    decide +kernel
  cases loaded : descent.load with
  | error e => rw [loaded] at failed; cases failed
  | ok i =>
    rw [loaded] at failed
    cases read : Program.ofText [] descent.source 64 with
    | error e => rw [read] at written; cases written
    | ok p =>
      rw [read] at written
      obtain ⟨short, flat⟩ := Prod.mk.inj (Option.some.inj written)
      obtain ⟨-, rewritten, pictured⟩ :=
        run_forms loaded rfl rfl (fun _ _ => rfl) read [2] 20
      obtain ⟨j, loadedShort, same⟩ := rewritten []
      obtain ⟨image, encoded, shows⟩ := pictured flat 2 (by decide)
      obtain ⟨drawn, decoded, forms⟩ := shows image ⟨rfl, rfl, fun _ _ _ _ => rfl⟩
      obtain ⟨k, loadedDrawn, sameDrawn⟩ := forms [] []
      exact ⟨i, p, image, drawn, j, k, rfl, rfl, short, loadedShort, encoded, decoded,
        loadedDrawn, Option.some.inj failed, same, sameDrawn⟩

end Interpreter
end TapeLang
