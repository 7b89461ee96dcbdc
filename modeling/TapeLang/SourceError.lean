import TapeLang.Text.Basic

/-! What can be wrong with a program before it runs, and where. A fault is a cause; its
wording, its kind and the exit code of that kind are functions of it. -/
namespace TapeLang

/-- A place in a source, with the stripped line it lies on. -/
structure Location where
  file : Text
  line : Int
  column : Int
  statement : Text
deriving DecidableEq, Repr

inductive LoopSide where
  | opening
  | closing
deriving DecidableEq, Repr

inductive SourceFault where
  | unterminatedArguments (file : Text) (line column : Int)
  | invalidInstruction (text : Text)
  | undefinedCall (name : Text)
  | wrongArity (name : Text) (expected received : Nat)
  | invalidDeclaration (text : Text)
  | emptyParameter (name : Text)
  | repeatedParameter (name : Text)
  | uncolouredCall (symbol : Text)
  | unknownColour (code : Text) (row column : Nat)
  | unbalancedLoop (unmatched : LoopSide)
  | alreadyDefined (name : Text)
  | recursiveProcedure (name : Text)
  | expansionTooDeep (name : Text) (limit : Int)
  | emissionTooDeep (symbol : Text) (limit : Int)
  | raggedImage (width height : Nat) (side : Int)
  | mixedBlock (x y : Nat)
  | unidentifiedImage (stream : Text)
deriving DecidableEq, Repr

structure SourceError where
  fault : SourceFault
  location : Option Location := none
deriving DecidableEq, Repr

namespace SourceFault

inductive Kind where
  | invalidInstruction
  | unbalancedLoop
  | duplicateDefinition
  | expansion
  | invalidBitmap
deriving DecidableEq, Repr

def kind : SourceFault → Kind
  | unterminatedArguments .. | invalidInstruction _ | undefinedCall _ | wrongArity ..
  | invalidDeclaration _ | emptyParameter _ | repeatedParameter _ | uncolouredCall _
  | unknownColour .. => .invalidInstruction
  | unbalancedLoop _ => .unbalancedLoop
  | alreadyDefined _ => .duplicateDefinition
  | recursiveProcedure _ | expansionTooDeep .. | emissionTooDeep .. => .expansion
  | raggedImage .. | mixedBlock .. | unidentifiedImage _ => .invalidBitmap

namespace Kind

def name : Kind → String
  | invalidInstruction => "InvalidInstruction"
  | unbalancedLoop => "UnbalancedLoop"
  | duplicateDefinition => "DuplicateDefinition"
  | expansion => "ExpansionError"
  | invalidBitmap => "InvalidBitmap"

def exitCode : Kind → Nat
  | invalidInstruction => 42
  | unbalancedLoop => 4
  | duplicateDefinition => 5
  | expansion => 6
  | invalidBitmap => 14

end Kind

def message : SourceFault → Text
  | unterminatedArguments file line column =>
    "Unterminated argument list at ".toList ++ file ++ ':' :: Text.ofInt line ++
      ':' :: Text.ofInt column
  | invalidInstruction text => "Invalid instruction '".toList ++ text ++ ['\'']
  | undefinedCall name => "Call to undefined name '".toList ++ name ++ ['\'']
  | wrongArity name expected received =>
    name ++ " expects ".toList ++ Text.ofNat expected ++ " arguments but received ".toList ++
      Text.ofNat received
  | invalidDeclaration text =>
    "Invalid declaration '".toList ++ text ++ "', expected name(params) = body".toList
  | emptyParameter name => "Empty parameter name in declaration of '".toList ++ name ++ ['\'']
  | repeatedParameter name =>
    "Repeated parameter name in declaration of '".toList ++ name ++ ['\'']
  | uncolouredCall symbol =>
    "Function call '".toList ++ symbol ++ "' has no bitmap colour".toList
  | unknownColour code row column =>
    "Unknown instruction colour #".toList ++ code ++ " at block ".toList ++ Text.ofNat row ++
      ':' :: Text.ofNat column
  | unbalancedLoop .opening => "unbalanced loop: unmatched open".toList
  | unbalancedLoop .closing => "unbalanced loop: unmatched close".toList
  | alreadyDefined name => name ++ " is already defined".toList
  | recursiveProcedure name =>
    "Procedure '".toList ++ name ++ "' cannot be invoked recursively".toList
  | expansionTooDeep name limit =>
    "Expansion of '".toList ++ name ++ "' exceeds maximum depth ".toList ++ Text.ofInt limit
  | emissionTooDeep symbol limit =>
    "C translation of '".toList ++ symbol ++ "' exceeds maximum depth ".toList ++
      Text.ofInt limit
  | raggedImage width height side =>
    "Image size ".toList ++ Text.ofNat width ++ 'x' :: Text.ofNat height ++
      " is not a multiple of the ".toList ++ Text.ofInt side ++ "-pixel block".toList
  | mixedBlock x y =>
    "Block at pixel (".toList ++ Text.ofNat x ++ ", ".toList ++ Text.ofNat y ++
      ") is not a single colour".toList
  | unidentifiedImage stream =>
    "Cannot read image: cannot identify image file ".toList ++ stream

end SourceFault

namespace SourceError

def message (e : SourceError) : Text := e.fault.message

/-- The message behind the position, where there is one. -/
def describe (e : SourceError) : Text :=
  match e.location with
  | none => e.message
  | some l =>
    l.file ++ ':' :: Text.ofInt l.line ++ ':' :: Text.ofInt l.column ++ ": ".toList ++ e.message

/-- The line a console prints for the error. -/
def report (e : SourceError) : Text :=
  e.fault.kind.name.toList ++ ": ".toList ++ e.describe

end SourceError
end TapeLang
