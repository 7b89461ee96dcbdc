import TapeLang.Machine
import TapeLang.Text.Json

/-! Tracebacks of runtime errors: the frames of a machine from the outermost in, as text and
as JSON. A caller stands behind its call, so its current instruction is the one before its
cursor. -/
namespace TapeLang

structure ShownFrame where
  name : Text
  location : Option Location
  label : Option Text
  entry : Option StepRecord
deriving DecidableEq, Repr

namespace Traceback

/-- A frame as shown; the innermost one stands at its current instruction. -/
def frameOf (innermost : Bool) (frame : Frame) : ShownFrame :=
  let current :=
    if innermost then frame.code[frame.cursor]?
    else if frame.cursor = 0 then none
    else frame.code[frame.cursor - 1]?
  { name := frame.name
    location := match current with
      | some i => i.location
      | none => frame.calledFrom
    label := current.map (·.op.label)
    entry := frame.lastRecord }

/-- The frames, the outermost first. -/
def frames (m : Machine) : List ShownFrame :=
  match m.stack with
  | [] => []
  | innermost :: callers => (frameOf true innermost :: callers.map (frameOf false)).reverse

def frameLines (verbose : Bool) (f : ShownFrame) : List Text :=
  (match f.location with
    | none => ["  <unknown location> in ".toList ++ f.name]
    | some l =>
      ("  File \"".toList ++ l.file ++ "\", line ".toList ++ Text.ofInt l.line ++
        ", column ".toList ++ Text.ofInt l.column ++ ", in ".toList ++ f.name) ::
      if l.statement.isEmpty then [] else ["    ".toList ++ l.statement]) ++
  (match f.label with
    | none => []
    | some label =>
      if label.isEmpty then [] else ["    Instruction: ".toList ++ label]) ++
  match f.entry with
    | none => []
    | some e =>
      ("    State log index: ".toList ++ Text.ofNat e.index ++ "  State id: ".toList ++ e.id) ::
      match verbose, e.snapshot with
      | true, some cells =>
        ["    Tape snapshot: ".toList ++ Text.join [',', ' '] (cells.map cellText)]
      | _, _ => []

/-- The rule named in a traceback; an error without one arose in the runtime. -/
def ruleText (e : RuntimeError) : Text :=
  match e.rule with
  | none | some [] => "runtime".toList
  | some rule => rule

def stepText : Option Nat → Text
  | none => "None".toList
  | some step => Text.ofNat step

def lastLine (e : RuntimeError) : Text :=
  e.fault.kind.name.toList ++ ": ".toList ++ e.message ++ " (instruction: ".toList ++
    ruleText e ++ ", step: ".toList ++ stepText e.step ++ [')']

/-- The traceback as text. -/
def render (m : Machine) (e : RuntimeError) (verbose : Bool) : Text :=
  Text.join ['\n'] ("Traceback (most recent call last):".toList ::
    (frames m).flatMap (frameLines verbose) ++ [lastLine e])

def locationJson (l : Location) : Json :=
  .object [("file", .string l.file), ("line", .int l.line), ("column", .int l.column),
    ("statement", .string l.statement)]

def cellField (cell : Nat × UInt8) : String × Json :=
  ("C" ++ String.ofList (Text.ofNat cell.1), .int cell.2.toNat)

def frameJson (index : Nat) (f : ShownFrame) : Json :=
  .object <|
    [("frame_index", .int index), ("name", .string f.name)] ++
    (match f.location with
      | none => []
      | some l => [("source_location", locationJson l)]) ++
    (match f.label with
      | none => []
      | some label => if label.isEmpty then [] else [("instruction", .string label)]) ++
    match f.entry with
      | none => []
      | some e =>
        [("state_id", .string e.id), ("step_index", .int e.index)] ++
        match e.snapshot with
        | none => []
        | some cells => [("tape_snapshot", .object (cells.map cellField))]

def json (m : Machine) (e : RuntimeError) : Json :=
  .object
    [("error", .object
      [("type", .string e.fault.kind.name.toList), ("message", .string e.message),
       ("failing_step_index", match e.step with
          | none => .null
          | some step => .int step),
       ("pointer", .int m.tape.pointer)]),
     ("traceback", .array ((frames m).mapIdx frameJson))]

/-- The traceback as JSON text. -/
def renderJson (m : Machine) (e : RuntimeError) : Text := json m e 0

end Traceback
end TapeLang
