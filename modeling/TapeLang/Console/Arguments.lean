import TapeLang.Text.Numeral
import TapeLang.Text.Quoted

/-! Command-line arguments. An option may be shortened as long as it stays unambiguous, and
its value may follow as the next argument, behind an equals sign, or, for an option of one
letter, at once. Behind `--` nothing is an option. -/
namespace TapeLang.Console

structure Options where
  program : Option Text := none
  literal : Bool := false
  input : Option Text := none
  output : Option Text := none
  check : Bool := false
  shortForm : Bool := false
  bitmap : Bool := false
  toC : Bool := false
  trace : Bool := false
  verbose : Bool := false
  jsonTraceback : Bool := false
  tapeSize : Int := 30000
  maxDepth : Int := 1000
  extensions : List Text := []
  help : Bool := false
deriving DecidableEq, Repr

inductive Switch where
  | help
  | source
  | input
  | output
  | check
  | shortForm
  | bitmap
  | toC
  | trace
  | verbose
  | jsonTraceback
  | tapeSize
  | maxDepth
  | extension
deriving DecidableEq, Repr

namespace Switch

/-- Every spelling of every switch. -/
def spellings : List (Text × Switch) :=
  [("-h".toList, help), ("--help".toList, help), ("-source".toList, source),
   ("--source".toList, source), ("-i".toList, input), ("--input".toList, input),
   ("-o".toList, output), ("--output".toList, output), ("--check".toList, check),
   ("--rewrite".toList, shortForm), ("--translate".toList, bitmap), ("--to-c".toList, toC),
   ("--trace".toList, trace), ("-verbose".toList, verbose), ("--verbose".toList, verbose),
   ("--traceback-json".toList, jsonTraceback), ("--tape-size".toList, tapeSize),
   ("--max-depth".toList, maxDepth), ("--ext".toList, extension)]

def takesValue : Switch → Bool
  | input | output | tapeSize | maxDepth | extension => true
  | _ => false

/-- The spellings of a switch, as messages name it. -/
def displayName (s : Switch) : Text :=
  Text.join ['/'] ((spellings.filter (·.2 = s)).map (·.1))

end Switch

inductive UsageError where
  | expectedArgument (switch : Switch)
  | invalidInteger (switch : Switch) (value : Text)
  | ignoredArgument (switch : Switch) (value : Text)
  | ambiguous (argument : Text) (candidates : List Text)
  | unrecognized (arguments : List Text)
  | notPositive (switch : Switch)
deriving DecidableEq, Repr

def UsageError.message : UsageError → Text
  | expectedArgument s =>
    "argument ".toList ++ s.displayName ++ ": expected one argument".toList
  | invalidInteger s value =>
    "argument ".toList ++ s.displayName ++ ": invalid int value: ".toList ++ Text.quoted value
  | ignoredArgument s value =>
    "argument ".toList ++ s.displayName ++ ": ignored explicit argument ".toList ++
      Text.quoted value
  | ambiguous argument candidates =>
    "ambiguous option: ".toList ++ argument ++ " could match ".toList ++
      Text.join [',', ' '] candidates
  | unrecognized arguments =>
    "unrecognized arguments: ".toList ++ Text.join [' '] arguments
  | notPositive s => s.displayName ++ " must be positive".toList

/-- What an argument is taken for. -/
inductive Argument where
  | plain (text : Text)
  | switch (s : Switch) (value : Option Text)
  | unknown (text : Text)
  | marker
deriving DecidableEq, Repr

def Argument.text : Argument → Text
  | plain text | unknown text => text
  | marker => ['-', '-']
  | switch .. => []

/-- Digits with at most one point before the last of them, behind a minus sign. -/
def isNegativeNumber (argument : Text) : Bool :=
  match argument with
  | '-' :: digits =>
    match Text.cut '.' digits with
    | (whole, none) => !whole.isEmpty && whole.all Text.isDecimal
    | (whole, some rest) =>
      whole.all Text.isDecimal && !rest.isEmpty && rest.all Text.isDecimal
  | _ => false

/-- The switches that a shortened or joined argument may mean. -/
def candidates (argument : Text) : List (Text × Switch × Option Text) :=
  match argument with
  | '-' :: '-' :: _ =>
    let (start, value) := Text.cut '=' argument
    (Switch.spellings.filter fun (name, _) => start.isPrefixOf name).map
      fun (name, s) => (name, s, value)
  | _ =>
    Switch.spellings.filterMap fun (name, s) =>
      if name = argument.take 2 then some (name, s, some (argument.drop 2))
      else if argument.isPrefixOf name then some (name, s, none)
      else none

/-- What an argument in front of the marker is taken for. -/
def classify (argument : Text) : Except UsageError Argument :=
  if argument.head? ≠ some '-' then .ok (.plain argument)
  else match Switch.spellings.lookup argument with
    | some s => .ok (.switch s none)
    | none =>
      if argument.length = 1 then .ok (.plain argument)
      else
        let (name, value) := Text.cut '=' argument
        match value, Switch.spellings.lookup name with
        | some value, some s => .ok (.switch s (some value))
        | _, _ =>
          match candidates argument with
          | [] =>
            if isNegativeNumber argument || argument.contains ' ' then .ok (.plain argument)
            else .ok (.unknown argument)
          | [(_, s, value)] => .ok (.switch s value)
          | several => .error (.ambiguous argument (several.map (·.1)))

/-- All arguments as what they are taken for. -/
def classifyAll : List Text → Except UsageError (List Argument)
  | [] => .ok []
  | argument :: rest =>
    if argument = ['-', '-'] then .ok (.marker :: rest.map .plain)
    else do return (← classify argument) :: (← classifyAll rest)

/-- The options so far, whether the program argument is settled, and what is left over. -/
structure Reading where
  options : Options := {}
  settled : Bool := false
  extras : List Text := []

namespace Reading

def leaveOver (r : Reading) (arguments : List Argument) : Reading :=
  { r with extras := r.extras ++ arguments.map Argument.text }

/-- The first plain argument is the program; others are left over. -/
def takePlain (r : Reading) (text : Text) : Reading :=
  if r.settled then r.leaveOver [.plain text]
  else { r with options := { r.options with program := some text }, settled := true }

def setFlag (o : Options) : Switch → Options
  | .help => { o with help := true }
  | .source => { o with literal := true }
  | .check => { o with check := true }
  | .shortForm => { o with shortForm := true }
  | .bitmap => { o with bitmap := true }
  | .toC => { o with toC := true }
  | .trace => { o with trace := true }
  | .verbose => { o with verbose := true }
  | .jsonTraceback => { o with jsonTraceback := true }
  | _ => o

def setValue (o : Options) (s : Switch) (value : Text) : Except UsageError Options :=
  let integer : Except UsageError Int :=
    match Text.intValue? value with
    | some n => .ok n
    | none => .error (.invalidInteger s value)
  match s with
  | .input => .ok { o with input := some value }
  | .output => .ok { o with output := some value }
  | .extension => .ok { o with extensions := o.extensions ++ [value] }
  | .tapeSize => do return { o with tapeSize := ← integer }
  | .maxDepth => do return { o with maxDepth := ← integer }
  | _ => .ok o

/-- A switch with the value given to it; a flag takes none. -/
def takeSwitch (r : Reading) (s : Switch) (value : Option Text) : Except UsageError Reading :=
  match value with
  | none => .ok { r with options := setFlag r.options s }
  | some value =>
    if s.takesValue then do return { r with options := ← setValue r.options s value }
    else .error (.ignoredArgument s value)

/-- What follows the marker: the program if it is still open, the rest is left over. -/
def takeMarked (r : Reading) (arguments : List Argument) : Reading :=
  if r.settled then r.leaveOver (.marker :: arguments)
  else match arguments with
    | [] => r
    | next :: rest => (r.takePlain next.text).leaveOver rest

/-- Takes the arguments in turn. A marker right behind the program goes with it. -/
def takeAll : List Argument → Reading → Except UsageError Reading
  | [], r => .ok r
  | .unknown text :: rest, r => takeAll rest (r.leaveOver [.unknown text])
  | .marker :: rest, r => .ok (r.takeMarked rest)
  | .plain text :: rest, r =>
    match r.settled, rest with
    | false, .marker :: after => .ok ((r.takePlain text).leaveOver after)
    | _, _ => takeAll rest (r.takePlain text)
  | .switch s value :: rest, r =>
    if s.takesValue && value.isNone then
      match rest with
      | .plain value :: rest => do takeAll rest (← r.takeSwitch s (some value))
      | _ => .error (.expectedArgument s)
    else do takeAll rest (← r.takeSwitch s value)

end Reading

/-- The switches, one on each line. -/
def usage : Text :=
  Text.join ['\n'] ("usage: [switches] [program]".toList ::
    Switch.spellings.map fun (name, s) =>
      ' ' :: ' ' :: name ++ if s.takesValue then " VALUE".toList else [])

/-- The options that the arguments ask for. -/
def readArguments (arguments : List Text) : Except UsageError Options := do
  let r ← Reading.takeAll (← classifyAll arguments) {}
  if r.options.help then return r.options
  if !r.extras.isEmpty then throw (.unrecognized r.extras)
  if r.options.tapeSize ≤ 0 then throw (.notPositive .tapeSize)
  if r.options.maxDepth ≤ 0 then throw (.notPositive .maxDepth)
  return r.options

end TapeLang.Console
