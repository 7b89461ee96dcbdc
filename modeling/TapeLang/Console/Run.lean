import TapeLang.Bitmap.File
import TapeLang.Console.Arguments
import TapeLang.Console.Interactive
import TapeLang.Extension.Loading
import TapeLang.Machine.CCode
import TapeLang.Program.ShortForm

/-! The command line as a function: from arguments, files and standard input to an exit
status, what is shown, and the files afterwards. -/
namespace TapeLang.Console

/-- Files, among which extensions can be loaded. -/
abbrev Files := FileTree (ExtensionFile EventHandler RuleHandler)

/-- What ends the program without an exit code: text that is not UTF-8, or preludes that do
not fit together when the interactive console starts. -/
inductive Escape where
  | undecodable
  | prelude (e : SourceError)
deriving DecidableEq, Repr

inductive Status where
  | exit (code : Nat)
  | usage (e : UsageError)
  | escaped (e : Escape)
deriving DecidableEq, Repr

structure Outcome where
  status : Status
  screen : Screen := {}
  files : Files
  log : Array LogEntry := #[]

/-- The exit code for files that cannot be read or written. -/
def fileErrorCode : Nat := 3

/-- What a job works on: the machine, the screen and the files. -/
structure Desk where
  machine : Machine
  screen : Screen
  files : Files

/-- Why a job ends early: a fault of the program, or a file that cannot be opened. -/
inductive JobFault where
  | program (fault : Fault)
  | file (fault : OpenFault) (path : Text)
deriving DecidableEq, Repr

abbrev Job := EStateM JobFault Desk

namespace Job

def onMachine {α : Type} (work : Exec α) : Job α := do
  match work.run (← get).machine with
  | .ok a machine =>
    modify fun d => { d with machine }
    return a
  | .error fault machine =>
    modify fun d => { d with machine }
    throw (.program fault)

def onScreen (f : Screen → Screen) : Job Unit := modify fun d => { d with screen := f d.screen }

def ofSource {α : Type} : Except SourceError α → Job α
  | .ok a => pure a
  | .error e => throw (.program (.source e))

def writeFile (path : Text) (content : List UInt8) : Job Unit := do
  match (← get).files.write path content with
  | .ok files => modify fun d => { d with files }
  | .error fault => throw (.file fault path)

end Job

/-- A text that an option gives, unless it is empty. -/
def given (value : Option Text) : Option Text := value.filter (!·.isEmpty)

/-- The short form and the bitmap of the program. Bytes on standard output come before text
that is still held back. -/
def convert (i : Interpreter) (o : Options) : Job Unit := do
  let program ← Job.onMachine i.parse
  let short := program.shortForm ++ (if program.calls.isEmpty then ['\n'] else [])
  let showShort : Job Unit := if o.shortForm then Job.onScreen (·.print short) else pure ()
  if o.bitmap then
    match Bitmap.write program.instructions with
    | .error e => do
      showShort
      throw (.program (.source e))
    | .ok bytes =>
      match given o.output with
      | some path => do
        showShort
        Job.writeFile path bytes
      | none => do
        Job.onScreen (·.printBytes bytes)
        showShort
  else showShort

/-- The program in C. -/
def writeC (i : Interpreter) (o : Options) : Job Unit := do
  let c ← Job.onMachine do i.toC (← i.parse) i.setup.expansionLimit
  match given o.output with
  | some path => Job.writeFile path (Text.toUtf8 c.render)
  | none => Job.onScreen (·.print c.render)

/-- Output of a run that no file takes goes to the screen; so does a trace without a file. -/
def showStreams (outputOnScreen traceOnScreen : Bool) : Job Unit :=
  modify fun d =>
    let screen := if outputOnScreen then d.screen.printBytes d.machine.output.toList else d.screen
    let screen := if traceOnScreen then
        d.machine.trace.foldl (fun s entry => s.complain entry.line) screen else screen
    { d with screen }

/-- Runs the program and shows the tape and the counters. -/
def runProgram (i : Interpreter) (fuel : Nat) (outputOnScreen traceOnScreen : Bool) :
    Job Unit := do
  try
    let _ ← Job.onMachine (i.run fuel)
  catch fault =>
    showStreams outputOnScreen traceOnScreen
    throw fault
  showStreams outputOnScreen traceOnScreen
  let m := (← get).machine
  let report := m.counters.report
  Job.onScreen fun s =>
    ((((s.printLine []).printLine m.tape.dump).printLine []).print report.head).printElapsed
      |>.printLine report.tail

/-- Does what the options ask for. -/
def carryOut (i : Interpreter) (o : Options) (fuel : Nat)
    (outputOnScreen traceOnScreen : Bool) : Job Unit := do
  if o.check || o.shortForm || o.bitmap then
    if o.check then
      let _ ← Job.ofSource i.check
    if o.shortForm || o.bitmap then convert i o
  else if o.toC then writeC i o
  else runProgram i fuel outputOnScreen traceOnScreen

/-- The exit code of a job that ended early, and what is shown about it. -/
def report (o : Options) (d : Desk) : JobFault → Nat × Screen
  | .file fault path =>
    (fileErrorCode, d.screen.complain ("File error: ".toList ++ fault.message path))
  | .program (.source e) => (e.fault.kind.exitCode, d.screen.complain e.report)
  | .program (.runtime e) =>
    let screen := d.screen.complain (Traceback.render d.machine e o.verbose)
    (e.fault.kind.exitCode,
      if o.jsonTraceback then screen.complain (Traceback.renderJson d.machine e) else screen)
  | .program (.foreign message) => (1, d.screen.complain message)

/-- The program text or tokens that the program argument stands for. -/
structure Loaded where
  file : Text
  source : Text := []
  tokens : Option (List Token) := none

inductive LoadFault where
  | unreadable (message : Text)
  | source (e : SourceError)
  | undecodable
deriving DecidableEq, Repr

/-- Whether a path names a bitmap. -/
def namesBitmap (path : Text) : Bool := Text.hasSuffix ".bmp".toList path

/-- Reads the program argument: text itself, a bitmap file, or a source file. -/
def loadProgram (files : Files) (o : Options) (program : Text) : Except LoadFault Loaded :=
  if o.literal then .ok { file := "<string>".toList, source := program }
  else match files.read program with
    | .error fault => .error (.unreadable (fault.message program))
    | .ok content =>
      if namesBitmap program then
        let stream := "<_io.BufferedReader name=".toList ++ Text.quoted program ++ ['>']
        match Bitmap.readTokens stream content.toArray with
        | .ok tokens => .ok { file := program, tokens := some tokens }
        | .error (.source e) => .error (.source e)
        | .error (.file fault) => .error (.unreadable fault.message)
      else match Text.ofUtf8? content with
        | none => .error .undecodable
        | some text => .ok { file := program, source := Text.universalNewlines text }

/-- Input bytes of a run. -/
def inputOf (content : List UInt8) : List Int := content.map fun byte => (byte.toNat : Int)

/-- The file that a trace of a program goes to. -/
def tracePath (program : Text) : Text := Path.stem program ++ ".log".toList

/-- The paths of the files that the output and the trace go to. -/
def outputPath (o : Options) : Option Text :=
  if o.bitmap || o.toC then none else given o.output

def traceFilePath (o : Options) (program : Text) : Option Text :=
  if o.trace && !o.literal then some (tracePath program) else none

/-- Opens the files that the options name: the input, then the output and the trace, which
are created empty. -/
def openFiles (o : Options) (program : Text) : EStateM (OpenFault × Text) Files Unit := do
  match given o.input with
  | none => pure ()
  | some path =>
    match (← get).openFile path with
    | .ok _ => pure ()
    | .error fault => throw (fault, path)
  create (outputPath o)
  create (traceFilePath o program)
where
  create : Option Text → EStateM (OpenFault × Text) Files Unit
    | none => pure ()
    | some path => do
      match (← get).write path [] with
      | .ok files => set files
      | .error fault => throw (fault, path)

/-- Puts the streams of a finished job into the files that take them. -/
def closeFiles (files : Files) (o : Options) (program : Text) (m : Machine) : Files :=
  let put (files : Files) (path : Option Text) (content : List UInt8) : Files :=
    match path with
    | none => files
    | some path => ((files.write path content).toOption).getD files
  put (put files (outputPath o) m.output.toList) (traceFilePath o program)
    (m.trace.toList.flatMap fun entry => Text.toUtf8 (entry.line ++ ['\n']))

/-- Runs a loaded program with its files open. -/
def runLoaded (files : Files) (o : Options) (fuel : Nat) (services : MachineServices)
    (stdin : List UInt8) (program : Text) (loaded : Loaded) : Outcome :=
  let input := match given o.input with
    | some path => ((files.read path).toOption).getD []
    | none => stdin
  let setup : Setup :=
    { source := loaded.source, file := loaded.file, tokens := loaded.tokens
      verbose := o.verbose, traced := o.trace, tapeSize := o.tapeSize, callLimit := o.maxDepth
      services }
  match setup.load with
  | .error .tapeSize => { status := .usage (.notPositive .tapeSize), files }
  | .error (.prelude e) =>
    { status := .exit e.fault.kind.exitCode, screen := Screen.complain {} e.report, files }
  | .ok i =>
    match (carryOut i o fuel (outputPath o).isNone (o.trace && o.literal)).run
        ⟨i.start (inputOf input), {}, files⟩ with
    | .ok () d =>
      { status := .exit 0, screen := d.screen, log := d.machine.log
        files := closeFiles d.files o program d.machine }
    | .error fault d =>
      let (code, screen) := report o d fault
      { status := .exit code, screen, log := d.machine.log
        files := closeFiles d.files o program d.machine }

/-- The lines of a terminal. -/
def terminalLines (t : Text) : List Text :=
  let pieces := Text.pieces '\n' (Text.universalNewlines t)
  if pieces.getLast? = some [] then pieces.dropLast else pieces

/-- What the options come to: an outcome, or a console that waits for lines. -/
inductive Prepared where
  | finished (outcome : Outcome)
  | interactive (console : Interactive) (screen : Screen)

/-- Starts the interactive console. A program in it meets the end of input. -/
def startInteractive (files : Files) (o : Options) (services : MachineServices) : Prepared :=
  let setup : Setup :=
    { file := interactiveFile, verbose := o.verbose, tapeSize := o.tapeSize, services }
  let screen := Screen.printLine {} banner
  match setup.load with
  | .error .tapeSize => .finished { status := .usage (.notPositive .tapeSize), files }
  | .error (.prelude e) => .finished { status := .escaped (.prelude e), screen, files }
  | .ok i => .interactive { interpreter := i, machine := i.start [] } screen

/-- Does what the options ask for, as far as no lines are needed: a program is run, and
without one the interactive console starts. -/
def prepare (fuel : Nat) (files : Files) (stdin : List UInt8) (o : Options) : Prepared :=
  let failed (code : Nat) (message : Text) : Outcome :=
    { status := .exit code, screen := Screen.complain {} message, files }
  match ExtensionFile.loadAll files o.extensions with
  | .error (.extension e) => .finished (failed 1 ("ExtensionError: ".toList ++ e.message))
  | .error .undecodable => .finished { status := .escaped .undecodable, files }
  | .ok services =>
    match o.program with
    | none =>
      if o.literal then .finished (failed 1 "-source requires a program string".toList)
      else startInteractive files o services
    | some program => .finished <|
      match loadProgram files o program with
      | .error (.unreadable message) =>
        failed fileErrorCode ("Failed to read ".toList ++ program ++ ": ".toList ++ message)
      | .error (.source e) => failed e.fault.kind.exitCode e.report
      | .error .undecodable => { status := .escaped .undecodable, files }
      | .ok loaded =>
        match (openFiles o program).run files with
        | .error (fault, path) files =>
          { failed fileErrorCode ("File error: ".toList ++ fault.message path) with files }
        | .ok () files => runLoaded files o fuel services stdin program loaded

/-- The whole run of the interactive console on what its input holds. -/
def runInteractive (fuel : Nat) (files : Files) (stdin : List UInt8) (console : Interactive)
    (screen : Screen) : Outcome :=
  match Text.ofUtf8? stdin with
  | none => { status := .escaped .undecodable, screen := (console.showPrompt screen).2, files }
  | some text =>
    let (console, screen) := Interactive.session fuel (terminalLines text) (console, screen)
    { status := .exit 0, screen, files, log := console.machine.log }

/-- The command line. -/
def run (fuel : Nat) (files : Files) (stdin : List UInt8) (arguments : List Text) : Outcome :=
  match readArguments arguments with
  | .error e => { status := .usage e, files }
  | .ok o =>
    if o.help then { status := .exit 0, screen := Screen.printLine {} usage, files }
    else match prepare fuel files stdin o with
      | .finished outcome => outcome
      | .interactive console screen => runInteractive fuel files stdin console screen

end TapeLang.Console
