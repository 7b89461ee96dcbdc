import TapeLang.Extension.Services
import TapeLang.Files.Tree
import TapeLang.Text.Utf8

/-! Loading extensions from files. A path that ends in `.bfx` is a list of further paths,
relative to it, one on each line. -/
namespace TapeLang

/-- An extension file: the name it gives itself, the interface it was made for, and its
registrations, if it can be called to make them. -/
structure ExtensionFile (α β : Type) where
  name : Option Text := none
  api : InterfaceVersion := .number interfaceVersion
  calls : Option (List (Registration α β))

inductive LoadError where
  | extension (e : ExtensionError)
  | undecodable
deriving DecidableEq, Repr

namespace ExtensionFile

variable {α β : Type}

def listSuffix : Text := ".bfx".toList

def moduleSuffix : Text := ".py".toList

/-- The paths in a list, each joined to the directory of the list. -/
def listedPaths (directory content : Text) : List Text :=
  (Text.pieces '\n' (Text.universalNewlines content)).filterMap fun line =>
    let entry := Text.strip (line.takeWhile (· ≠ '#'))
    if entry.isEmpty then none else some (Path.join directory entry)

/-- The extension paths that a path stands for. -/
def expandPath (files : FileTree (ExtensionFile α β)) (path : Text) :
    Except LoadError (List Text) :=
  if Text.hasSuffix listSuffix path then
    if files.isFile path then
      match (files.read path).toOption.bind Text.ofUtf8? with
      | some content => .ok (listedPaths (Path.parent (files.absolute path)) content)
      | none => .error .undecodable
    else .error (.extension (.listNotFound path))
  else .ok [path]

/-- All extension paths, made absolute. -/
def gatherPaths (files : FileTree (ExtensionFile α β)) (paths : List Text) :
    Except LoadError (List Text) := do
  return ((← paths.mapM (expandPath files)).flatten).map files.absolute

/-- The extension at an absolute path. A plain file registers nothing. -/
def find (files : FileTree (ExtensionFile α β)) (path : Text) :
    Except ExtensionError (ExtensionFile α β) :=
  match files.file? path with
  | none => .error (.notFound path)
  | some entry =>
    if !moduleSuffix.isSuffixOf path then .error (.notLoadable path)
    else match entry with
      | .loadable e => .ok e
      | _ => .ok { calls := none }

/-- Registers what the extension at a path contributes. -/
def load (files : FileTree (ExtensionFile α β)) (s : Services α β) (path : Text) :
    Except ExtensionError (Services α β) := do
  let e ← find files path
  if e.api ≠ .number interfaceVersion then throw (.wrongApi path e.api)
  match e.calls with
  | none => throw (.noRegistration path)
  | some calls => s.registerAll (e.name.getD (Path.stem (Path.fileName path))) calls

/-- The services of the extensions at the paths, in order. -/
def loadAll (files : FileTree (ExtensionFile α β)) (paths : List Text) :
    Except LoadError (Services α β) := do
  match (← gatherPaths files paths).foldlM (load files) {} with
  | .ok services => return services
  | .error e => throw (.extension e)

end ExtensionFile
end TapeLang
