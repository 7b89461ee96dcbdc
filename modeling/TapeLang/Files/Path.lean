import TapeLang.Text.Basic

/-! File paths, with slashes between their components. -/
namespace TapeLang.Path

def isAbsolute (path : Text) : Bool := path.head? = some '/'

def join (base path : Text) : Text :=
  if isAbsolute path then path
  else if base.isEmpty || base.getLast? = some '/' then base ++ path
  else base ++ '/' :: path

/-- The path without slashes at its end, unless it is nothing else. -/
def trimEnd (path : Text) : Text :=
  if path.all (· = '/') then path else (path.reverse.dropWhile (· = '/')).reverse

/-- The parts of a path that end before a slash or at its end, the shortest first. -/
def leading (path : Text) : List Text :=
  let components := Text.pieces '/' path
  (List.range components.length).map fun n => Text.join ['/'] (components.take (n + 1))

/-- The slashes that a normal path keeps in front: two stay two, more become one. -/
def rootOf (path : Text) : Text :=
  match (path.takeWhile (· = '/')).length with
  | 0 => []
  | 2 => ['/', '/']
  | _ => ['/']

/-- Adds a component to those before it, the last first. A step up removes one, if there is
one that is no step up itself; above a root there is nothing. -/
def pushComponent (rooted : Bool) (before : List Text) (component : Text) : List Text :=
  if component = [] || component = ['.'] then before
  else if component = ['.', '.'] then
    match before with
    | [] => if rooted then [] else [component]
    | last :: rest => if last = ['.', '.'] then component :: before else rest
  else component :: before

/-- The path without empty components, steps to the same place and avoidable steps up. -/
def normalize (path : Text) : Text :=
  let root := rootOf path
  let components := (Text.pieces '/' path).foldl (pushComponent !root.isEmpty) []
  let result := root ++ Text.join ['/'] components.reverse
  if result.isEmpty then ['.'] else result

def absolute (directory path : Text) : Text := normalize (join directory path)

/-- The last component. -/
def fileName (path : Text) : Text := (path.reverse.takeWhile (· ≠ '/')).reverse

/-- What stands before the last slash. -/
def parent (path : Text) : Text :=
  let upToSlash := (path.reverse.dropWhile (· ≠ '/')).reverse
  let stripped := (upToSlash.reverse.dropWhile (· = '/')).reverse
  if stripped.isEmpty then upToSlash else stripped

/-- The path without its extension, the last dot of the last component and what follows.
Dots that begin the component do not count. -/
def stem (path : Text) : Text :=
  let name := fileName path
  let dots := name.takeWhile (· = '.')
  let rest := name.dropWhile (· = '.')
  if rest.contains '.' then
    path.take (path.length - name.length) ++ dots ++
      ((rest.reverse.dropWhile (· ≠ '.')).drop 1).reverse
  else path

end TapeLang.Path
