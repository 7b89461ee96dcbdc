import TapeLang.Files.Path
import TapeLang.Text.Quoted
import TapeLang.Text.Utf8

/-! A tree of files. Every directory on the way to an entry is there with it. A path is
followed component by component, so a step up leads out of what is there. -/
namespace TapeLang

/-- An entry of the tree: bytes, a directory, or a file that is loaded as a value. -/
inductive FileEntry (μ : Type) where
  | bytes (content : List UInt8)
  | directory
  | loadable (value : μ)

/-- Entries by absolute path, the latest first, and the working directory. -/
structure FileTree (μ : Type) where
  directory : Text
  entries : List (Text × FileEntry μ) := []

/-- Why a file cannot be opened. -/
inductive OpenFault where
  | notFound
  | isDirectory
  | notDirectory
  | nameTooLong
deriving DecidableEq, Repr

namespace OpenFault

def code : OpenFault → Nat
  | notFound => 2
  | isDirectory => 21
  | notDirectory => 20
  | nameTooLong => 36

def reason : OpenFault → String
  | notFound => "No such file or directory"
  | isDirectory => "Is a directory"
  | notDirectory => "Not a directory"
  | nameTooLong => "File name too long"

/-- The message about a path. -/
def message (fault : OpenFault) (path : Text) : Text :=
  "[Errno ".toList ++ Text.ofNat fault.code ++ "] ".toList ++ fault.reason.toList ++
    ": ".toList ++ Text.quoted path

end OpenFault

namespace FileTree

variable {μ : Type}

def absolute (t : FileTree μ) (path : Text) : Text := Path.absolute t.directory path

/-- Whether one absolute path lies below another. -/
def isBelow (path directory : Text) : Bool :=
  (if directory.getLast? = some '/' then directory else directory ++ ['/']).isPrefixOf path

def isDirectory (t : FileTree μ) (path : Text) : Bool :=
  path = t.directory || isBelow t.directory path ||
    t.entries.any fun (name, entry) =>
      isBelow name path || (name = path && entry matches .directory)

/-- The file at an absolute path. -/
def file? (t : FileTree μ) (path : Text) : Option (FileEntry μ) :=
  match t.entries.lookup path with
  | some .directory => none
  | entry => entry

/-- The longest component and the longest path that can be followed, in bytes. -/
def componentLimit : Nat := 255

def pathLimit : Nat := 4095

/-- One component followed from a place, which must be a directory. -/
def follow (t : FileTree μ) (place component : Text) : Except OpenFault Text :=
  if !t.isDirectory place then
    .error (if (t.file? place).isSome then .notDirectory else .notFound)
  else if component = [] || component = ['.'] then .ok place
  else if component = ['.', '.'] then .ok (Path.parent place)
  else if componentLimit < (Text.toUtf8 component).length then .error .nameTooLong
  else .ok (Path.join place component)

/-- Components of a path followed from where the path starts. -/
def walk (t : FileTree μ) (path : Text) (components : List Text) : Except OpenFault Text :=
  if path.isEmpty then .error .notFound
  else if pathLimit < (Text.toUtf8 path).length then .error .nameTooLong
  else components.foldlM t.follow (if Path.isAbsolute path then ['/'] else t.directory)

/-- The place that a path leads to. Nothing need be there. -/
def resolve (t : FileTree μ) (path : Text) : Except OpenFault Text :=
  t.walk path (Text.pieces '/' path)

/-- The directory that holds what a path names, whose name is not looked at. -/
def resolveHolder (t : FileTree μ) (path : Text) : Except OpenFault Text :=
  t.walk path ((Text.pieces '/' (Path.trimEnd path)).dropLast ++ [[]])

/-- The file that a path opens for reading. -/
def openFile (t : FileTree μ) (path : Text) : Except OpenFault (FileEntry μ) := do
  let place ← t.resolve path
  match t.file? place with
  | some entry => return entry
  | none => throw (if t.isDirectory place then .isDirectory else .notFound)

/-- Whether a path leads to a file of bytes or a loadable one. -/
def isFile (t : FileTree μ) (path : Text) : Bool := (t.openFile path).toOption.isSome

/-- The bytes that a path opens. A loadable file shows none. -/
def read (t : FileTree μ) (path : Text) : Except OpenFault (List UInt8) :=
  (t.openFile path).map fun entry =>
    match entry with
    | .bytes content => content
    | _ => []

/-- The tree after writing a file. A path that ends in a slash names a directory, whether it
is there or not. -/
def write (t : FileTree μ) (path : Text) (content : List UInt8) :
    Except OpenFault (FileTree μ) := do
  if path.getLast? = some '/' then
    let _ ← t.resolveHolder path
    throw .isDirectory
  let place ← t.resolve path
  if t.isDirectory place then throw .isDirectory
  return { t with
    entries := (place, .bytes content) :: t.entries.filter (·.1 != place) }

end FileTree
end TapeLang
