import TapeLang.Text.Basic

/-! JSON text in ASCII, indented by two blanks a level. A value is a function of the level
at which it is written. -/
namespace TapeLang

/-- The text of a value at an indentation level. -/
abbrev Json := Nat → Text

namespace Json

def indent (level : Nat) : Text := List.replicate (2 * level) ' '

/-- One code point inside a string; beyond the basic plane it is a pair of surrogates. -/
def escapeChar (c : Char) : Text :=
  let unit (n : Nat) : Text := '\\' :: 'u' :: Text.hex 4 n
  if c = '"' || c = '\\' then ['\\', c]
  else if c = '\n' then ['\\', 'n']
  else if c = '\r' then ['\\', 'r']
  else if c = '\t' then ['\\', 't']
  else if c.toNat = 8 then ['\\', 'b']
  else if c.toNat = 12 then ['\\', 'f']
  else if 0x20 ≤ c.toNat && c.toNat ≤ 0x7E then [c]
  else if c.toNat < 0x10000 then unit c.toNat
  else unit (0xD800 + (c.toNat - 0x10000) / 0x400) ++ unit (0xDC00 + (c.toNat - 0x10000) % 0x400)

def stringText (t : Text) : Text := '"' :: (t.flatMap escapeChar ++ ['"'])

def null : Json := fun _ => "null".toList

def int (n : Int) : Json := fun _ => Text.ofInt n

def string (t : Text) : Json := fun _ => stringText t

/-- Items between brackets, each on its own line; nothing inside leaves just the brackets. -/
def enclosed (opening closing : Char) (items : List Json) : Json := fun level =>
  if items.isEmpty then [opening, closing]
  else
    opening :: '\n' :: Text.join [',', '\n'] (items.map fun item =>
      indent (level + 1) ++ item (level + 1)) ++ '\n' :: (indent level ++ [closing])

def array (items : List Json) : Json := enclosed '[' ']' items

def object (fields : List (String × Json)) : Json :=
  enclosed '\x7b' '\x7d' (fields.map fun (key, value) =>
    fun level => stringText key.toList ++ ':' :: ' ' :: value level)

end Json
end TapeLang
