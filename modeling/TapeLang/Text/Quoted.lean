import TapeLang.Text.Basic

/-! Text quoted for a message. Apostrophes enclose it unless it holds an apostrophe and no
double quote; what cannot be shown is written as an escape. -/
namespace TapeLang.Text

/-- The quotation mark that encloses a text. -/
def quoteMark (t : Text) : Char :=
  if t.contains '\'' && !t.contains '"' then '"' else '\''

def escapeChar (mark c : Char) : Text :=
  if c = mark || c = '\\' then ['\\', c]
  else if c = '\n' then ['\\', 'n']
  else if c = '\r' then ['\\', 'r']
  else if c = '\t' then ['\\', 't']
  else if isPrintable c then [c]
  else if c.toNat < 0x100 then '\\' :: 'x' :: hex 2 c.toNat
  else if c.toNat < 0x10000 then '\\' :: 'u' :: hex 4 c.toNat
  else '\\' :: 'U' :: hex 8 c.toNat

def quoted (t : Text) : Text :=
  quoteMark t :: (t.flatMap (escapeChar (quoteMark t)) ++ [quoteMark t])

end TapeLang.Text
