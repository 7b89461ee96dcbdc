import TapeLang.Text.Basic

/-! Call words and their argument lists. -/
namespace TapeLang

/-- Arguments between semicolons that stand outside parentheses, before stripping. -/
def argumentPieces : Int → Text → List Text
  | _, [] => [[]]
  | depth, c :: rest =>
    let depth := if c = '(' then depth + 1 else if c = ')' then depth - 1 else depth
    if c = ';' && depth == 0 then [] :: argumentPieces depth rest
    else match argumentPieces depth rest with
      | [] => [[c]]
      | first :: others => (c :: first) :: others

/-- The stripped arguments of a list; a blank list has none. -/
def argumentList (raw : Text) : List Text :=
  if Text.isBlankText raw then [] else (argumentPieces 0 raw).map Text.strip

/-- The name of a call word and the text between its parentheses, if it has them. -/
def splitCall? (word : Text) : Option (Text × Option Text) :=
  let name := word.takeWhile Text.isWord
  if name.isEmpty then none
  else match word.dropWhile Text.isWord with
    | [] => some (name, none)
    | '(' :: rest =>
      if rest.getLast? = some ')' then some (name, some rest.dropLast) else none
    | _ => none

end TapeLang
