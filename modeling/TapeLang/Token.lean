import TapeLang.SourceError

/-! Tokens of a source text. A declaration token holds the rest of its line. -/
namespace TapeLang

/-- The three forms of definition. Macros and procedures are expanded while a program is
read, functions are called while it runs. -/
inductive DefinitionKind where
  | macroForm
  | procedureForm
  | functionForm
deriving DecidableEq, Repr

namespace DefinitionKind

def sigil : DefinitionKind → Char
  | macroForm => '$'
  | procedureForm => '@'
  | functionForm => '§'

def ofSigil? (c : Char) : Option DefinitionKind :=
  if c = '$' then some macroForm
  else if c = '@' then some procedureForm
  else if c = '§' then some functionForm
  else none

end DefinitionKind

inductive TokenKind where
  | symbol
  | word
  | declaration (kind : DefinitionKind)
  | endOfText
deriving DecidableEq, Repr

structure Token where
  kind : TokenKind
  value : Text
  line : Int
  column : Int
deriving DecidableEq, Repr

end TapeLang
