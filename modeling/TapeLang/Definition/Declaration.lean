import TapeLang.Definition

/-! Declarations: `name(params) = body`, the parameter list being optional. -/
namespace TapeLang

/-- The name and the parameter text of a declaration head. -/
def splitHead? (head : Text) : Option (Text × Option Text) :=
  let start := Text.stripStart head
  let name := start.takeWhile Text.isWord
  let rest := Text.stripStart (start.dropWhile Text.isWord)
  if !(name.head?.any Text.isNameStart) then none
  else match rest with
    | [] => some (name, none)
    | '(' :: inside =>
      let params := inside.takeWhile fun c => c != '(' && c != ')'
      match inside.dropWhile fun c => c != '(' && c != ')' with
      | ')' :: after => if Text.isBlankText after then some (name, some params) else none
      | _ => none
    | _ => none

/-- The parameters between semicolons. An empty list has none, a blank one an empty name. -/
def splitParameters : Option Text → List Text
  | none | some [] => []
  | some raw => (Text.pieces ';' raw).map Text.strip

/-- The definition that the rest of a declaration line makes. -/
def readDeclaration (kind : DefinitionKind) (value : Text) (location : Location) :
    Except SourceError Definition :=
  let invalid : SourceError := ⟨.invalidDeclaration (Text.strip value), some location⟩
  match Text.cut '=' value with
  | (_, none) => .error invalid
  | (head, some body) =>
    match splitHead? head with
    | none => .error invalid
    | some (name, raw) =>
      let params := splitParameters raw
      if params.any List.isEmpty then .error ⟨.emptyParameter name, some location⟩
      else if !decide params.Nodup then .error ⟨.repeatedParameter name, some location⟩
      else .ok { kind, name, params, body := Text.strip body, location := some location }

end TapeLang
