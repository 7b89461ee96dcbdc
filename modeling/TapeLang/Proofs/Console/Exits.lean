import TapeLang.Console.Run
import TapeLang.Proofs.Machine.Failures

/-! How the command line ends on a source file. What the options ask of the machine fails with an
error of the program or not at all, and each such error has its exit code; files that cannot be
opened have one too. So every run on a file ends with an exit code, unless its bytes are no text:
that is caught nowhere. -/
namespace TapeLang

/-- The exit code of an error of the program. -/
def Fault.exitCode? : Fault → Option Nat
  | source e => some e.fault.kind.exitCode
  | runtime e => some e.fault.kind.exitCode
  | foreign _ => none

theorem Fault.exists_exitCode {fault : Fault} (ofProgram : fault.isForeign = false) :
    ∃ code, fault.exitCode? = some code := by
  cases fault with
  | source | runtime => exact ⟨_, rfl⟩
  | foreign => cases ofProgram

theorem SourceFault.Kind.exitCode_ne_zero (kind : Kind) : kind.exitCode ≠ 0 := by
  cases kind <;> decide

theorem RuntimeFault.Kind.exitCode_ne_zero (kind : Kind) : kind.exitCode ≠ 0 := by
  cases kind <;> decide

theorem Fault.exitCode_ne_zero {fault : Fault} {code : Nat} (coded : fault.exitCode? = some code) :
    code ≠ 0 := by
  cases fault with
  | source e =>
    cases coded
    exact e.fault.kind.exitCode_ne_zero
  | runtime e =>
    cases coded
    exact e.fault.kind.exitCode_ne_zero
  | foreign => cases coded

/-- Whether a file can be written does not depend on what is to be in it. -/
theorem FileTree.write_fails {μ : Type} {t : FileTree μ} {path : Text} {content : List UInt8}
    {fault : OpenFault} (failed : t.write path content = .error fault) (other : List UInt8) :
    t.write path other = .error fault := by
  unfold write at failed ⊢
  split at failed
  · rename_i slash
    rw [if_pos slash]
    exact failed
  · rename_i noSlash
    rw [if_neg noSlash]
    rcases bind_eq_error_iff.mp failed with unresolved | ⟨place, resolved, refused⟩
    · exact bind_eq_error_iff.mpr (.inl unresolved)
    · refine bind_eq_error_iff.mpr (.inr ⟨place, resolved, ?_⟩)
      split at refused
      · rename_i directory
        rw [if_pos directory]
        exact refused
      · cases refused

section

variable {ε σ α β ι : Type} {P : ε → Prop}

/-- Work fails with errors of a kind only, whatever state it starts on. -/
def FailsWith (P : ε → Prop) (work : EStateM ε σ α) : Prop :=
  ∀ s e t, work.run s = .error e t → P e

namespace FailsWith

theorem pure (a : α) : FailsWith P (pure a : EStateM ε σ α) := nofun

theorem throw {e : ε} (holds : P e) : FailsWith P (throw e : EStateM ε σ α) := by
  rintro s e t ⟨⟩
  exact holds

theorem modify (f : σ → σ) : FailsWith P (modify f : EStateM ε σ Unit) := nofun

theorem bind {x : EStateM ε σ α} {f : α → EStateM ε σ β} (first : FailsWith P x)
    (next : ∀ a, FailsWith P (f a)) : FailsWith P (x >>= f) := by
  intro s e t failed
  cases ran : x.run s with
  | ok a u =>
    rw [run_bind_of_ok ran] at failed
    exact next a u e t failed
  | error e' u =>
    rw [run_bind_of_error ran] at failed
    cases failed
    exact first s e t ran

theorem mapM {f : ι → EStateM ε σ α} {items : List ι} (each : ∀ x ∈ items, FailsWith P (f x)) :
    FailsWith P (items.mapM f) := by
  induction items with
  | nil => exact .pure []
  | cons x rest ih =>
    obtain ⟨here, others⟩ := List.forall_mem_cons.mp each
    rw [List.mapM_cons]
    exact here.bind fun _ => (ih others).bind fun _ => .pure _

end FailsWith

namespace Emission

variable {fault : SourceError → ε} {compile : Text → List Text → EStateM ε σ Program}
variable {limit : Int} {deeper : Bool}

theorem emitLevel_failsWith (compiles : ∀ name args, FailsWith P (compile name args))
    (emits : ∀ e, P (fault e)) (level : List Call) (progress : Progress) :
    FailsWith P (emitLevel fault compile limit deeper level progress) := by
  induction level generalizing progress with
  | nil => exact .pure progress
  | cons c rest ih =>
    refine (compiles c.name c.args).bind fun program => ?_
    cases progress.naming.meetAll limit deeper program with
    | error e => exact .throw (emits e)
    | ok naming => exact ih _

theorem emitWithin_failsWith (compiles : ∀ name args, FailsWith P (compile name args))
    (emits : ∀ e, P (fault e)) (budget : Nat) (progress : Progress) :
    FailsWith P (emitWithin fault compile limit budget progress) := by
  induction budget generalizing progress with
  | zero => exact .pure progress
  | succ budget ih =>
    rw [emitWithin]
    split
    · exact .pure progress
    · exact (emitLevel_failsWith compiles emits _ _).bind ih

end Emission

/-- Writing a program in C fails as compiling its functions does, or as the writing itself. -/
theorem Program.toC_failsWith {fault : SourceError → ε}
    {compile : Text → List Text → EStateM ε σ Program}
    (compiles : ∀ name args, FailsWith P (compile name args)) (emits : ∀ e, P (fault e))
    (p : Program) (tapeSize : Nat) (limit : Int) :
    FailsWith P (p.toC fault compile tapeSize limit) := by
  rw [toC]
  split
  · exact .throw (emits _)
  · exact (Emission.emitWithin_failsWith compiles emits _ _).bind fun _ => .pure _

end

namespace Interpreter

variable {i : Interpreter}

/-- Work of a machine fails with errors of the program only. -/
abbrev FailsInside {α : Type} (work : Exec α) : Prop := FailsWith (·.isForeign = false) work

theorem notify_failsInside (i : Interpreter) (notice : Notice) : FailsInside (i.notify notice) := by
  intro m fault u failed
  rcases i.notify_cases notice m with ⟨_, _, calm, -⟩ | ⟨_, _, _, raised, -⟩
  · cases failed.symm.trans calm
  · cases failed.symm.trans raised
    exact Fault.isForeign_ofHook _ _

theorem declaring_failsInside {α : Type} (work : Declaring α) : FailsInside (declaring work) := by
  intro m fault u failed
  rw [run_declaring] at failed
  cases ran : work.run m.definitions with
  | ok a left =>
    rw [ran] at failed
    cases failed
  | error e left =>
    rw [ran] at failed
    cases failed
    rfl

theorem parse_failsInside (i : Interpreter) : FailsInside i.parse := by
  unfold parse
  cases i.tokens with
  | error e => exact .throw rfl
  | ok tokens =>
    exact (declaring_failsInside _).bind fun _ => (FailsWith.modify _).bind fun _ =>
      (i.notify_failsInside _).bind fun _ => .pure _

theorem bodyOf_failsInside (i : Interpreter) (name : Text) (args : List Text) :
    FailsInside (i.bodyOf name args) := by
  intro m fault u failed
  rcases bodyOf_fails failed with ⟨-, -, rfl⟩ | ⟨e, left, -, -, rfl⟩ <;> rfl

theorem run_failsInside (i : Interpreter) (fuel : Nat) : FailsInside (i.run fuel) := by
  intro m fault u failed
  obtain ⟨told, ends⟩ := i.runEnds fuel m
  rw [failed] at ends
  exact ends.isForeign

/-- Of all requests, only a text that is executed on the state at hand can fail from outside of the
program: there nothing is made of what the sink raises. -/
theorem answer_failsInside (i : Interpreter) {request : Request}
    (other : ∀ fuel file text, request ≠ .evaluate fuel file text) :
    FailsInside (i.answer request) := by
  cases request with
  | evaluate fuel file text => exact absurd rfl (other fuel file text)
  | run fuel => exact (i.run_failsInside fuel).bind fun _ => .pure _
  | parse => exact i.parse_failsInside.bind fun _ => .pure _
  | check =>
    rw [answer]
    cases i.check with
    | ok loops => exact .pure _
    | error e => exact .throw rfl
  | reset => exact (FailsWith.modify _).bind fun _ => .pure _
  | bodyOf name args => exact (i.bodyOf_failsInside name args).bind fun _ => .pure _
  | shortForm => exact i.parse_failsInside.bind fun _ => .pure _
  | toC limit =>
    exact i.parse_failsInside.bind fun p =>
      (p.toC_failsWith i.bodyOf_failsInside (fun _ => rfl) _ _).bind fun _ => .pure _

/-- What a machine parses at the start is the program of its set-up. -/
theorem readSetup_of_run_parse {input : List Int} {p : Program} {u : Machine}
    (ran : i.parse.run (i.start input) = .ok p u) : i.readSetup = .ok p := by
  unfold parse at ran
  cases lexed : i.tokens with
  | error e =>
    rw [lexed] at ran
    cases ran
  | ok tokens =>
    rw [lexed] at ran
    dsimp only at ran
    obtain ⟨q, v, declared, told⟩ := run_bind_eq_ok_iff.mp ran
    obtain ⟨_, _, -, told⟩ := run_bind_eq_ok_iff.mp told
    obtain ⟨_, _, -, ⟨⟩⟩ := run_bind_eq_ok_iff.mp told
    rw [run_declaring, show (i.start input).definitions = i.base from rfl] at declared
    rw [readSetup_of_tokens lexed]
    cases parsed : (i.source.parse tokens).run i.base with
    | error e left =>
      rw [parsed] at declared
      cases declared
    | ok q left =>
      rw [parsed] at declared
      cases declared
      rfl

end Interpreter

namespace Console

variable {fuel : Nat} {files opened : Files} {stdin : List UInt8} {arguments : List Text}
variable {o : Options} {program : Text} {services : MachineServices} {i : Interpreter}

/-- What the options ask of a machine, in turn. -/
def requests (o : Options) (limit : Int) (fuel : Nat) : List Request :=
  if o.check || o.shortForm || o.bitmap then
    (if o.check then [.check] else []) ++ if o.shortForm || o.bitmap then [.parse] else []
  else if o.toC then [.toC limit]
  else [.run fuel]

/-- The answers to what the options ask of a machine, up to the first request that fails. -/
def answers (i : Interpreter) (o : Options) (fuel : Nat) (m : Machine) :
    EStateM.Result Fault Machine (List Answer) :=
  ((requests o i.setup.expansionLimit fuel).mapM i.answer).run m

/-- The path of the file that takes a bitmap or a C program. -/
def resultPath (o : Options) : Option Text :=
  if o.bitmap || o.toC && !o.check && !o.shortForm then given o.output else none

/-- The program can be drawn, if that is asked for. -/
def IsDrawn (i : Interpreter) (o : Options) : Prop :=
  o.bitmap = true → ∃ p bytes, i.readSetup = .ok p ∧ Bitmap.write p.instructions = .ok bytes

/-- `Finishes i o fuel m files code`: how the work on a loaded program ends, and with which exit
code. A request fails, the program cannot be drawn, the file for the result cannot be written, or
all is done. A run that is out of fuel has not ended: it is cut off, without an error so far. -/
inductive Finishes (i : Interpreter) (o : Options) (fuel : Nat) (m : Machine) (files : Files) :
    Nat → Prop where
  | failed {fault u code} :
      answers i o fuel m = .error fault u → fault.exitCode? = some code →
      Finishes i o fuel m files code
  | undrawn {replies u p e} :
      answers i o fuel m = .ok replies u → o.bitmap = true → i.readSetup = .ok p →
      Bitmap.write p.instructions = .error e →
      Finishes i o fuel m files e.fault.kind.exitCode
  | unwritten {replies u path fault} :
      answers i o fuel m = .ok replies u → IsDrawn i o → resultPath o = some path →
      (∀ content, files.write path content = .error fault) →
      Finishes i o fuel m files fileErrorCode
  | done {replies u} :
      answers i o fuel m = .ok replies u → .ran .outOfFuel ∉ replies → IsDrawn i o →
      (∀ path ∈ resultPath o, ∀ content, ∃ after, files.write path content = .ok after) →
      Finishes i o fuel m files 0
  | cutOff {replies u} :
      answers i o fuel m = .ok replies u → .ran .outOfFuel ∈ replies → Finishes i o fuel m files 0

/-- The set-up of a machine for a source file. -/
def setupOf (o : Options) (program text : Text) (services : MachineServices) : Setup where
  source := Text.universalNewlines text
  file := program
  verbose := o.verbose
  traced := o.trace
  tapeSize := o.tapeSize
  callLimit := o.maxDepth
  services := services

/-- The bytes that a program reads: those of the file that the options name, or the standard
input. -/
def inputBytes (files : Files) (o : Options) (stdin : List UInt8) : List UInt8 :=
  match given o.input with
  | some path => ((files.read path).toOption).getD []
  | none => stdin

/-- The file is a text, the files that the options name are opened, and a machine is set up. -/
structure IsLoaded (files : Files) (o : Options) (program : Text) (services : MachineServices)
    (opened : Files) (i : Interpreter) : Prop where
  decoded : ∃ content text, files.read program = .ok content ∧ Text.ofUtf8? content = some text ∧
    (setupOf o program text services).load = .ok i
  opens : (openFiles o program).run files = .ok () opened

/-- The machine before its first run, with the input that the options give it. -/
def startOf (i : Interpreter) (opened : Files) (o : Options) (stdin : List UInt8) : Machine :=
  i.start (inputOf (inputBytes opened o stdin))

/-- `Ends fuel files stdin o program services status`: how the command line ends on a source file.
The file cannot be read, or its bytes are no text; another file cannot be opened, or a prelude not
be read; or the program is loaded and the work on it finishes. -/
inductive Ends (fuel : Nat) (files : Files) (stdin : List UInt8) (o : Options) (program : Text)
    (services : MachineServices) : Status → Prop where
  | unreadable {fault} :
      files.read program = .error fault →
      Ends fuel files stdin o program services (.exit fileErrorCode)
  | undecodable {content} :
      files.read program = .ok content → Text.ofUtf8? content = none →
      Ends fuel files stdin o program services (.escaped .undecodable)
  | unopened {content text refused left} :
      files.read program = .ok content → Text.ofUtf8? content = some text →
      (openFiles o program).run files = .error refused left →
      Ends fuel files stdin o program services (.exit fileErrorCode)
  | preludes {content text opened e} :
      files.read program = .ok content → Text.ofUtf8? content = some text →
      (openFiles o program).run files = .ok () opened →
      (setupOf o program text services).load = .error (.prelude e) →
      Ends fuel files stdin o program services (.exit e.fault.kind.exitCode)
  | loaded {opened i code} :
      IsLoaded files o program services opened i →
      Finishes i o fuel (startOf i opened o stdin) opened code →
      Ends fuel files stdin o program services (.exit code)

/-- Arguments that name a source file, and extensions that can be loaded. -/
structure NamesSource (files : Files) (arguments : List Text) (o : Options) (program : Text)
    (services : MachineServices) : Prop where
  options : readArguments arguments = .ok o
  noHelp : o.help = false
  notLiteral : o.literal = false
  named : o.program = some program
  noBitmap : namesBitmap program = false
  extended : ExtensionFile.loadAll files o.extensions = .ok services

/-- A file error has its exit code, and so has an error of the program. -/
def JobFault.exitCode? : JobFault → Option Nat
  | .file .. => some fileErrorCode
  | .program fault => fault.exitCode?

/-- The exit code of a job, if there is one. -/
def jobCode? : Except JobFault Unit → Option Nat
  | .ok () => some 0
  | .error fault => fault.exitCode?

theorem code_report {d : Desk} {fault : JobFault} {code : Nat}
    (coded : fault.exitCode? = some code) : (report o d fault).1 = code := by
  cases fault with
  | file => exact Option.some.inj coded
  | program fault =>
    cases fault with
    | source | runtime => exact Option.some.inj coded
    | foreign => cases coded

theorem run_onMachine {α : Type} (work : Exec α) (d : Desk) :
    (Job.onMachine work).run d =
      match work.run d.machine with
      | .ok a machine => .ok a { d with machine }
      | .error fault machine => .error (.program fault) { d with machine } := by
  unfold Job.onMachine
  rw [EStateM.run_bind, EStateM.run_get]
  dsimp only
  cases work.run d.machine <;> rfl

theorem run_showIf (condition : Bool) (f : Screen → Screen) (d : Desk) :
    ∃ screen, (if condition = true then Job.onScreen f else pure ()).run d =
      .ok () { d with screen } := by
  cases condition <;> exact ⟨_, rfl⟩

theorem run_writeFile (path : Text) (content : List UInt8) (d : Desk) :
    (Job.writeFile path content).run d =
      match d.files.write path content with
      | .ok files => .ok () { d with files }
      | .error fault => .error (.file fault path) d := by
  unfold Job.writeFile
  rw [EStateM.run_bind, EStateM.run_get]
  dsimp only
  cases d.files.write path content <;> rfl

/-- The requests that the options make fail with errors of the program only. -/
theorem answers_failsInside (i : Interpreter) (o : Options) (fuel : Nat) :
    Interpreter.FailsInside ((requests o i.setup.expansionLimit fuel).mapM i.answer) := by
  refine FailsWith.mapM fun request asked => i.answer_failsInside ?_
  rintro _ _ _ rfl
  unfold requests at asked
  split at asked
  · rcases List.mem_append.mp asked with checks | parses
    · split at checks <;> simp at checks
    · split at parses <;> simp at parses
  · split at asked <;> simp at asked

theorem tapeSize_pos (options : readArguments arguments = .ok o) (noHelp : o.help = false) :
    0 < o.tapeSize := by
  unfold readArguments at options
  obtain ⟨tokens, -, options⟩ := bind_eq_ok_iff.mp options
  obtain ⟨r, -, options⟩ := bind_eq_ok_iff.mp options
  split at options
  · rename_i helped
    cases options
    cases noHelp.symm.trans helped
  · dsimp only at options
    split at options
    · cases options
    · split at options
      · cases options
      · rename_i positive
        split at options
        · cases options
        · cases options
          exact Int.not_le.mp positive

theorem convert_fails {d : Desk} {fault : Fault} {u : Machine}
    (ran : i.parse.run d.machine = .error fault u) :
    outcome ((convert i o).run d) = .error (.program fault) := by
  have parsed := run_onMachine i.parse d
  rw [ran] at parsed
  unfold convert
  rw [run_bind_of_error parsed]
  rfl

/-- `Stores o files content stored`: what is made is written to the path that the options give, if
there is one. -/
inductive Stores (o : Options) (files : Files) (content : List UInt8) :
    Except JobFault Unit → Prop where
  | unwritten {path fault} :
      given o.output = some path → files.write path content = .error fault →
      Stores o files content (.error (.file fault path))
  | stored :
      (∀ path ∈ given o.output, ∃ after, files.write path content = .ok after) →
      Stores o files content (.ok ())

theorem stores_writeFile {d : Desk} {path : Text} (toFile : given o.output = some path)
    (content : List UInt8) :
    Stores o d.files content (outcome ((Job.writeFile path content).run d)) := by
  rw [run_writeFile]
  cases stored : d.files.write path content with
  | error fault => exact .unwritten toFile stored
  | ok after => exact .stored (by simp [toFile, stored])

/-- `Draws p o files drawn`: a program is drawn, if that is asked for, and its bitmap stored. -/
inductive Draws (p : Program) (o : Options) (files : Files) : Except JobFault Unit → Prop where
  | unasked : o.bitmap = false → Draws p o files (.ok ())
  | undrawn {e} :
      o.bitmap = true → Bitmap.write p.instructions = .error e →
      Draws p o files (.error (.program (.source e)))
  | drawn {bytes stored} :
      o.bitmap = true → Bitmap.write p.instructions = .ok bytes → Stores o files bytes stored →
      Draws p o files stored

theorem convert_draws {d : Desk} {p : Program} {u : Machine}
    (ran : i.parse.run d.machine = .ok p u) :
    Draws p o d.files (outcome ((convert i o).run d)) := by
  have parsed := run_onMachine i.parse d
  rw [ran] at parsed
  have shown := run_showIf o.shortForm
    (·.print (p.shortForm ++ if p.calls.isEmpty = true then ['\n'] else []))
  unfold convert
  rw [run_bind_of_ok parsed]
  dsimp only
  cases asked : o.bitmap with
  | false =>
    obtain ⟨screen, shown⟩ := shown { d with machine := u }
    rw [if_neg (by simp), shown]
    exact .unasked asked
  | true =>
    rw [if_pos rfl]
    cases written : Bitmap.write p.instructions with
    | error e =>
      obtain ⟨screen, shown⟩ := shown { d with machine := u }
      dsimp only
      rw [run_bind_of_ok shown]
      exact .undrawn asked written
    | ok bytes =>
      refine .drawn asked written ?_
      cases toFile : given o.output with
      | none =>
        obtain ⟨screen, shown⟩ :=
          shown { d with machine := u, screen := d.screen.printBytes bytes }
        dsimp only
        rw [Job.onScreen, EStateM.run_bind, EStateM.run_modify]
        dsimp only
        rw [shown]
        exact .stored (by simp [toFile])
      | some path =>
        obtain ⟨screen, shown⟩ := shown { d with machine := u }
        dsimp only
        rw [run_bind_of_ok shown]
        exact stores_writeFile (d := { d with machine := u, screen }) toFile bytes

/-- The C program of what a machine is set up with. -/
def emission (i : Interpreter) : Exec CProgram := do i.toC (← i.parse) i.setup.expansionLimit

theorem writeC_fails {d : Desk} {fault : Fault} {u : Machine}
    (ran : (emission i).run d.machine = .error fault u) :
    outcome ((writeC i o).run d) = .error (.program fault) := by
  have emitted := run_onMachine (emission i) d
  rw [ran] at emitted
  exact congrArg outcome (run_bind_of_error emitted _)

theorem writeC_stores {d : Desk} {c : CProgram} {u : Machine}
    (ran : (emission i).run d.machine = .ok c u) :
    Stores o d.files (Text.toUtf8 c.render) (outcome ((writeC i o).run d)) := by
  have emitted := run_onMachine (emission i) d
  rw [ran] at emitted
  unfold emission at emitted
  unfold writeC
  rw [run_bind_of_ok emitted]
  cases toFile : given o.output with
  | none => exact .stored (by simp [toFile])
  | some path => exact stores_writeFile (d := { d with machine := u }) toFile _

theorem outcome_runProgram (i : Interpreter) (outputOnScreen traceOnScreen : Bool) (d : Desk) :
    outcome ((runProgram i fuel outputOnScreen traceOnScreen).run d) =
      match (i.run fuel).run d.machine with
      | .ok _ _ => .ok ()
      | .error fault _ => .error (.program fault) := by
  have ran := run_onMachine (i.run fuel) d
  unfold runProgram
  rw [EStateM.run_bind, run_tryCatch, EStateM.run_bind, ran]
  cases (i.run fuel).run d.machine <;> rfl

/-- The first request is answered before the others. -/
theorem run_mapM_answer (request : Request) (later : List Request) (m : Machine) :
    ((request :: later).mapM i.answer).run m =
      match (i.answer request).run m with
      | .error fault u => .error fault u
      | .ok first u =>
        match (later.mapM i.answer).run u with
        | .error fault v => .error fault v
        | .ok others v => .ok (first :: others) v := by
  rw [List.mapM_cons, EStateM.run_bind]
  cases (i.answer request).run m with
  | error => rfl
  | ok first u =>
    dsimp only
    rw [EStateM.run_bind]
    cases (later.mapM i.answer).run u <;> rfl

theorem run_answer_check (m : Machine) :
    (i.answer .check).run m =
      match i.check with
      | .ok loops => .ok (.checked loops) m
      | .error e => .error (.source e) m := by
  rw [Interpreter.answer]
  cases i.check <;> rfl

/-- `HasCode i o fuel m files ended`: work on a loaded program ends with an exit code. -/
def HasCode (i : Interpreter) (o : Options) (fuel : Nat) (m : Machine) (files : Files)
    (ended : Except JobFault Unit) : Prop :=
  ∃ code, jobCode? ended = some code ∧ Finishes i o fuel m files code

theorem hasCode_of_fault {m u : Machine} {fault : Fault}
    (failed : answers i o fuel m = .error fault u) :
    HasCode i o fuel m files (.error (.program fault)) := by
  obtain ⟨code, coded⟩ := Fault.exists_exitCode (answers_failsInside i o fuel _ _ _ failed)
  exact ⟨code, coded, .failed failed coded⟩

theorem hasCode_of_stores {m u : Machine} {replies : List Answer} {content : List UInt8}
    {stored : Except JobFault Unit} (answered : answers i o fuel m = .ok replies u)
    (whole : .ran .outOfFuel ∉ replies) (drawn : IsDrawn i o)
    (toFile : resultPath o = given o.output) (stores : Stores o files content stored) :
    HasCode i o fuel m files stored := by
  cases stores with
  | unwritten path refused =>
    exact ⟨_, rfl, .unwritten answered drawn (toFile.trans path) (FileTree.write_fails refused)⟩
  | stored written =>
    refine ⟨0, rfl, .done answered whole drawn fun path named other => ?_⟩
    obtain ⟨after, wrote⟩ := written path (toFile ▸ named)
    cases again : files.write path other with
    | ok after => exact ⟨after, rfl⟩
    | error fault => cases (FileTree.write_fails again content).symm.trans wrote

theorem hasCode_of_draws {m u : Machine} {replies : List Answer} {p : Program}
    {drawn : Except JobFault Unit} (answered : answers i o fuel m = .ok replies u)
    (whole : .ran .outOfFuel ∉ replies) (read : i.readSetup = .ok p)
    (converts : o.check = true ∨ o.shortForm = true ∨ o.bitmap = true)
    (draws : Draws p o files drawn) : HasCode i o fuel m files drawn := by
  cases draws with
  | unasked unasked =>
    have nowhere : resultPath o = none := by
      rw [resultPath, if_neg]
      rcases converts with checks | shows | draws <;> simp_all
    exact ⟨0, rfl, .done answered whole (by simp [IsDrawn, unasked]) (by simp [nowhere])⟩
  | undrawn asked unfit => exact ⟨_, rfl, .undrawn answered asked read unfit⟩
  | drawn asked drawn stores =>
    exact hasCode_of_stores answered whole (fun _ => ⟨p, _, read, drawn⟩)
      (by simp [resultPath, asked]) stores

theorem run_answer_parse (m : Machine) :
    (i.answer .parse).run m =
      match i.parse.run m with
      | .ok p u => .ok (.parsed p.size) u
      | .error fault u => .error fault u := by
  rw [Interpreter.answer, EStateM.run_bind]
  cases i.parse.run m <;> rfl

theorem run_answer_toC (m : Machine) :
    (i.answer (.toC i.setup.expansionLimit)).run m =
      match (emission i).run m with
      | .ok c u => .ok (.written c.render) u
      | .error fault u => .error fault u := by
  rw [Interpreter.answer, emission]
  simp only [EStateM.run_bind]
  cases i.parse.run m with
  | error => rfl
  | ok p u =>
    dsimp only
    cases (i.toC p i.setup.expansionLimit).run u <;> rfl

theorem run_answer_run (m : Machine) :
    (i.answer (.run fuel)).run m =
      match (i.run fuel).run m with
      | .ok ending u => .ok (.ran ending) u
      | .error fault u => .error fault u := by
  rw [Interpreter.answer, EStateM.run_bind]
  cases (i.run fuel).run m <;> rfl

/-- What is converted is converted behind the answers of other requests. -/
theorem convert_hasCode {input : List Int} {screen : Screen} (front : List Answer)
    (whole : .ran .outOfFuel ∉ front)
    (converts : o.check = true ∨ o.shortForm = true ∨ o.bitmap = true)
    (asked : answers i o fuel (i.start input) =
      match ((if o.shortForm || o.bitmap then [.parse] else []).mapM i.answer).run
        (i.start input) with
      | .error fault u => .error fault u
      | .ok others u => .ok (front ++ others) u) :
    HasCode i o fuel (i.start input) files
      (outcome ((if o.shortForm || o.bitmap then convert i o else pure ()).run
        ⟨i.start input, screen, files⟩)) := by
  by_cases parses : (o.shortForm || o.bitmap) = true
  · rw [if_pos parses, run_mapM_answer, run_answer_parse] at asked
    rw [if_pos parses]
    cases ran : i.parse.run (i.start input) with
    | error fault u =>
      rw [ran] at asked
      rw [convert_fails (d := ⟨i.start input, screen, files⟩) ran]
      exact hasCode_of_fault asked
    | ok p u =>
      rw [ran] at asked
      exact hasCode_of_draws asked (by simp [whole]) (Interpreter.readSetup_of_run_parse ran)
        converts (convert_draws (d := ⟨i.start input, screen, files⟩) ran)
  · rw [if_neg parses] at asked ⊢
    have noBitmap : o.bitmap = false := by simp_all
    have noFile : resultPath o = none := by
      rw [resultPath, if_neg]
      simp_all
    exact ⟨0, rfl, .done asked (by simp [whole]) (by simp [IsDrawn, noBitmap]) (by simp [noFile])⟩

theorem carryOut_hasCode (i : Interpreter) (o : Options) (fuel : Nat)
    (outputOnScreen traceOnScreen : Bool) (input : List Int) (screen : Screen) (files : Files) :
    HasCode i o fuel (i.start input) files
      (outcome ((carryOut i o fuel outputOnScreen traceOnScreen).run
        ⟨i.start input, screen, files⟩)) := by
  have asked : answers i o fuel (i.start input) =
      ((requests o i.setup.expansionLimit fuel).mapM i.answer).run (i.start input) := rfl
  unfold carryOut
  unfold requests at asked
  by_cases converts : (o.check || o.shortForm || o.bitmap) = true
  · rw [if_pos converts] at asked ⊢
    simp only [Bool.or_eq_true, or_assoc] at converts
    cases checks : o.check with
    | false =>
      rw [checks, if_neg (by simp), List.nil_append] at asked
      rw [if_neg (by simp)]
      refine convert_hasCode [] (by simp) converts (asked.trans ?_)
      cases ((if o.shortForm || o.bitmap then [Request.parse] else []).mapM i.answer).run
        (i.start input) <;> rfl
    | true =>
      rw [checks, if_pos rfl, List.singleton_append, run_mapM_answer, run_answer_check] at asked
      rw [if_pos rfl]
      cases checked : i.check with
      | error e =>
        rw [checked] at asked
        exact hasCode_of_fault asked
      | ok loops =>
        -- a check leaves the machine as it is, so what follows starts from the same one
        rw [checked] at asked
        exact convert_hasCode [.checked loops] (by simp) converts asked
  · rw [if_neg converts] at asked ⊢
    simp only [Bool.or_eq_true, not_or, Bool.not_eq_true] at converts
    obtain ⟨⟨noCheck, noShort⟩, noBitmap⟩ := converts
    have drawn : IsDrawn i o := by simp [IsDrawn, noBitmap]
    cases emits : o.toC with
    | true =>
      rw [emits, if_pos rfl, run_mapM_answer, run_answer_toC] at asked
      rw [if_pos rfl]
      cases ran : (emission i).run (i.start input) with
      | error fault u =>
        rw [ran] at asked
        rw [writeC_fails (d := ⟨i.start input, screen, files⟩) ran]
        exact hasCode_of_fault asked
      | ok c u =>
        rw [ran] at asked
        have toFile : resultPath o = given o.output := by
          rw [resultPath, if_pos (by simp [emits, noCheck, noShort])]
        exact hasCode_of_stores asked (by simp) drawn toFile
          (writeC_stores (d := ⟨i.start input, screen, files⟩) ran)
    | false =>
      rw [emits, if_neg (by simp), run_mapM_answer, run_answer_run] at asked
      rw [if_neg (by simp), outcome_runProgram]
      cases ran : (i.run fuel).run (i.start input) with
      | error fault u =>
        rw [ran] at asked
        exact hasCode_of_fault asked
      | ok ending u =>
        rw [ran] at asked
        have noFile : resultPath o = none := by
          rw [resultPath, if_neg (by simp [emits, noBitmap])]
        cases ending with
        | outOfFuel => exact ⟨0, rfl, .cutOff asked (by simp)⟩
        | finished => exact ⟨0, rfl, .done asked (by simp) drawn (by simp [noFile])⟩

theorem load_ne_tapeSize (large : 0 < o.tapeSize) {text : Text} :
    (setupOf o program text services).load ≠ .error .tapeSize := by
  intro failed
  unfold Setup.load Tape.ofSize? at failed
  rw [dif_pos (show 0 < (setupOf o program text services).tapeSize from large)] at failed
  dsimp only at failed
  split at failed <;> cases failed

theorem runLoaded_ends {content : List UInt8} {text : Text} (large : 0 < o.tapeSize)
    (read : files.read program = .ok content) (decoded : Text.ofUtf8? content = some text)
    (opens : (openFiles o program).run files = .ok () opened) :
    Ends fuel files stdin o program services
      (runLoaded opened o fuel services stdin program
        { file := program, source := Text.universalNewlines text }).status := by
  cases loads : (setupOf o program text services).load with
  | error e =>
    cases e with
    | tapeSize => exact absurd loads (load_ne_tapeSize large)
    | prelude e =>
      have ended : Ends fuel files stdin o program services _ := .preludes read decoded opens loads
      -- the command line writes the set-up out as a record
      unfold setupOf at loads
      simp only [runLoaded, loads]
      exact ended
  | ok i =>
    obtain ⟨code, coded, finishes⟩ := carryOut_hasCode i o fuel (outputPath o).isNone
      (o.trace && o.literal) (inputOf (inputBytes opened o stdin)) {} opened
    have ended : Ends fuel files stdin o program services (.exit code) :=
      .loaded ⟨⟨content, text, read, decoded, loads⟩, opens⟩ finishes
    unfold setupOf at loads
    simp only [runLoaded, loads]
    cases worked : (carryOut i o fuel (outputPath o).isNone (o.trace && o.literal)).run _ with
    | ok _ d =>
      cases (congrArg (jobCode? <| outcome ·) worked).symm.trans coded
      exact ended
    | error fault d =>
      rw [← code_report ((congrArg (jobCode? <| outcome ·) worked).symm.trans coded)] at ended
      exact ended

theorem NamesSource.ends (names : NamesSource files arguments o program services) :
    Ends fuel files stdin o program services (run fuel files stdin arguments).status := by
  obtain ⟨options, noHelp, notLiteral, named, noBitmap, extended⟩ := names
  simp only [run, options, noHelp, prepare, extended, named, loadProgram, notLiteral, noBitmap,
    Bool.false_eq_true, if_false]
  cases read : files.read program with
  | error fault => exact .unreadable read
  | ok content =>
    dsimp only
    cases decoded : Text.ofUtf8? content with
    | none => exact .undecodable read decoded
    | some text =>
      dsimp only
      cases opens : (openFiles o program).run files with
      | error refused left => exact .unopened read decoded opens
      | ok _ opened => exact runLoaded_ends (tapeSize_pos options noHelp) read decoded opens

/-- There is no exit code only where the bytes of the file are no text. -/
theorem Ends.exits_iff {status : Status}
    (ends : Ends fuel files stdin o program services status) :
    (∃ code, status = .exit code) ↔
      ∀ content, files.read program = .ok content → (Text.ofUtf8? content).isSome := by
  cases ends with
  | undecodable read undecoded =>
    refine ⟨nofun, fun decodes => ?_⟩
    have decoded := decodes _ read
    simp [undecoded] at decoded
  | unreadable missing =>
    refine ⟨fun _ content read => ?_, fun _ => ⟨_, rfl⟩⟩
    cases missing.symm.trans read
  | unopened read decoded | preludes read decoded =>
    refine ⟨fun _ content again => ?_, fun _ => ⟨_, rfl⟩⟩
    cases read.symm.trans again
    simp [decoded]
  | loaded isLoaded =>
    refine ⟨fun _ content again => ?_, fun _ => ⟨_, rfl⟩⟩
    obtain ⟨_, text, read, decoded, -⟩ := isLoaded.decoded
    cases read.symm.trans again
    simp [decoded]

theorem Finishes.answered {m : Machine} {code : Nat} (finishes : Finishes i o fuel m files code)
    (zero : code = 0) : ∃ replies u, answers i o fuel m = .ok replies u := by
  cases finishes with
  | failed _ coded => exact absurd zero (Fault.exitCode_ne_zero coded)
  | undrawn answered | unwritten answered | done answered | cutOff answered =>
    exact ⟨_, _, answered⟩

/-- An exit code of zero tells that the program was loaded and no request has failed. -/
theorem Ends.answered {status : Status} (ends : Ends fuel files stdin o program services status)
    (zero : status = .exit 0) :
    ∃ opened i replies u, IsLoaded files o program services opened i ∧
      answers i o fuel (startOf i opened o stdin) = .ok replies u := by
  cases ends with
  | unreadable | undecodable | unopened => cases zero
  | preludes => exact absurd (Status.exit.inj zero) (SourceFault.Kind.exitCode_ne_zero _)
  | loaded isLoaded finishes =>
    obtain ⟨replies, u, answered⟩ := finishes.answered (Status.exit.inj zero)
    exact ⟨_, _, replies, u, isLoaded, answered⟩

/-- A run of the command line on a source file ends with an exit code, whatever the bytes of the
file, the input and the options: that of the error that stopped it, that of file errors, or zero if
there was none. Only bytes that are no text end it without one. -/
theorem run_ends (names : NamesSource files arguments o program services) (fuel : Nat)
    (stdin : List UInt8) :
    let status := (run fuel files stdin arguments).status
    Ends fuel files stdin o program services status ∧
      ((∃ code, status = .exit code) ↔
        ∀ content, files.read program = .ok content → (Text.ofUtf8? content).isSome) ∧
      (status = .exit 0 → ∃ opened i replies u, IsLoaded files o program services opened i ∧
        answers i o fuel (startOf i opened o stdin) = .ok replies u) :=
  ⟨names.ends, names.ends.exits_iff, names.ends.answered⟩

/-- A directory with one file. -/
def oneFile (content : List UInt8) : Files where
  directory := "/w".toList
  entries := [("/w/p.bf".toList, .bytes content)]

theorem oneFile_namesSource (content : List UInt8) :
    NamesSource (oneFile content) ["p.bf".toList] { program := some "p.bf".toList }
      "p.bf".toList {} :=
  ⟨by decide +kernel, rfl, rfl, rfl, by decide +kernel, rfl⟩

/-- The file holds a loop that is not closed. -/
theorem run_ends_openLoop :
    let status := (run 9 (oneFile ['['.toUInt8]) [] ["p.bf".toList]).status
    Ends 9 (oneFile ['['.toUInt8]) [] { program := some "p.bf".toList } "p.bf".toList {} status ∧
      ∃ code, status = .exit code := by
  obtain ⟨ends, exits, -⟩ := run_ends (oneFile_namesSource ['['.toUInt8]) 9 []
  refine ⟨ends, exits.mpr fun content read => ?_⟩
  have written : (oneFile ['['.toUInt8]).read "p.bf".toList = .ok ['['.toUInt8] := by
    decide +kernel
  cases written.symm.trans read
  decide +kernel

/-- The byte of the file begins no character, and that is not reported with an exit code. -/
theorem run_notText :
    NamesSource (oneFile [255]) ["p.bf".toList] { program := some "p.bf".toList } "p.bf".toList
        {} ∧
      (oneFile [255]).read "p.bf".toList = .ok [255] ∧
      ¬ ∃ code, (run 0 (oneFile [255]) [] ["p.bf".toList]).status = .exit code := by
  refine ⟨oneFile_namesSource [255], by decide +kernel, ?_⟩
  rintro ⟨code, exits⟩
  have escapes : (run 0 (oneFile [255]) [] ["p.bf".toList]).status = .escaped .undecodable := by
    decide +kernel
  cases escapes.symm.trans exits

end Console
end TapeLang
