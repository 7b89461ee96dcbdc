import TapeLang.Console.Run

/-! The program: reads the files and the input that its arguments name, and shows and stores
what comes of them. -/
namespace TapeLang.Main

open Console

/-- More steps than a run can take. -/
def fuel : Nat := Nat.pow 10 18

/-- The entry of a path, if something is there. -/
def readPlace (directory path : Text) :
    IO (Option (Text × FileEntry (ExtensionFile EventHandler RuleHandler))) := do
  let place := Path.absolute directory path
  let file := (← IO.currentDir) / String.ofList path
  if ← file.isDir then return some (place, .directory)
  else if ← file.pathExists then
    let content ← IO.FS.readBinFile file
    return some (place, .bytes content.toList)
  else return none

/-- The entries on the way to a path. -/
def readEntry (directory path : Text) :
    IO (List (Text × FileEntry (ExtensionFile EventHandler RuleHandler))) := do
  return (← (Path.leading path).mapM (readPlace directory)).filterMap id

/-- The files that the options name. -/
def readFiles (o : Options) : IO Files := do
  let directory := (← IO.currentDir).toString.toList
  let program := o.program.filter fun _ => !o.literal
  let paths := program.toList ++ (program.map tracePath).toList ++ o.input.toList ++
    o.output.toList ++ o.extensions
  let named : Files := ⟨directory, (← paths.mapM (readEntry directory)).flatten⟩
  let listed := ((ExtensionFile.gatherPaths named o.extensions).toOption).getD []
  return { named with
    entries := named.entries ++ (← listed.mapM (readEntry directory)).flatten }

/-- All bytes of a stream behind those already read. -/
partial def readAll (input : IO.FS.Stream) (before : ByteArray) : IO ByteArray := do
  let chunk ← input.read 65536
  if chunk.isEmpty then return before else readAll input (before ++ chunk)

def writeOut (bytes : List UInt8) : IO Unit := do
  let stdout ← IO.getStdout
  stdout.write ⟨bytes.toArray⟩
  stdout.flush

def display (screen : Screen) (time : Text) : IO Unit := do
  writeOut (screen.output.flatMap (·.encode time))
  IO.eprint (String.ofList screen.errors)

/-- Stores the files that differ from what was read. -/
def storeFiles (before after : Files) : IO Unit :=
  after.entries.forM fun (path, entry) => do
    match entry, before.entries.lookup path with
    | .bytes content, some (.bytes old) =>
      if content != old then IO.FS.writeBinFile (String.ofList path) ⟨content.toArray⟩
    | .bytes content, _ => IO.FS.writeBinFile (String.ofList path) ⟨content.toArray⟩
    | _, _ => pure ()

def exitCode : Status → IO UInt32
  | .exit code => return UInt32.ofNat code
  | .usage e => do
    IO.eprintln ("error: " ++ String.ofList e.message)
    return 2
  | .escaped .undecodable => do
    IO.eprintln "error: not UTF-8"
    return 1
  | .escaped (.prelude e) => do
    IO.eprintln (String.ofList e.report)
    return 1

/-- Feeds the lines of standard input to the interactive console. -/
partial def converse (input : IO.FS.Stream) (console : Interactive) : IO Unit := do
  let (console, screen) := console.showPrompt {}
  display screen []
  let line ← input.getLine
  if line.isEmpty then IO.println ""
  else
    match terminalLines line.toList with
    | [] => converse input console
    | text :: _ =>
      let (console, screen) := console.feed fuel {} text
      display screen []
      converse input console

def finish (files : Files) (outcome : Outcome) (started : Nat) : IO UInt32 := do
  storeFiles files outcome.files
  let elapsed : Decimal.Exact := ⟨false, (← IO.monoNanosNow) - started, 1000000⟩
  display outcome.screen (Report.timeText elapsed)
  exitCode outcome.status

end TapeLang.Main

open TapeLang Console TapeLang.Main in
def main (arguments : List String) : IO UInt32 := do
  match readArguments (arguments.map String.toList) with
  | .error e => exitCode (.usage e)
  | .ok o =>
    let files ← readFiles o
    if o.help then
      display (Screen.printLine {} usage) []
      return 0
    let input ← IO.getStdin
    let readsInput := o.program.isSome && (given o.input).isNone
    let stdin ← if readsInput then readAll input .empty else pure .empty
    let started ← IO.monoNanosNow
    match prepare fuel files stdin.toList o with
    | .finished outcome => finish files outcome started
    | .interactive console screen =>
      display screen []
      converse input console
      return 0
