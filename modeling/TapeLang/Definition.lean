import TapeLang.Definition.Substitution
import TapeLang.Token

/-! A definition: a name, formal parameters and a body that is text until it is expanded. -/
namespace TapeLang

structure Definition where
  kind : DefinitionKind
  name : Text
  params : List Text
  body : Text
  location : Option Location := none
deriving DecidableEq, Repr

namespace Definition

/-- The declaration line that declares the definition. -/
def render (d : Definition) : Text :=
  d.kind.sigil :: d.name ++
    (if d.params.isEmpty then [] else '(' :: Text.join [';'] d.params ++ [')']) ++
    " = ".toList ++ d.body

def arityFault (d : Definition) (args : List Text) : SourceFault :=
  .wrongArity d.name d.params.length args.length

/-- The body with the arguments in place of the parameters. -/
def instantiate (d : Definition) (args : List Text) : Except SourceError Text :=
  if args.length = d.params.length then .ok (substitute (d.params.zip args) d.body)
  else .error ⟨d.arityFault args, none⟩

end Definition
end TapeLang
