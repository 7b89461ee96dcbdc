import TapeLang.Text.CharRanges

/-! Source text as a list of code points: character classes, stripping, the two ways of
counting lines, and plain numerals. -/
namespace TapeLang

/-- Source text, names, bodies and arguments. -/
abbrev Text := List Char

namespace Text

def isLetter (c : Char) : Bool := CharRanges.contains CharRanges.letters c.toNat

def isDecimal (c : Char) : Bool := CharRanges.contains CharRanges.decimals c.toNat

def isOtherNumeric (c : Char) : Bool := CharRanges.contains CharRanges.otherNumerics c.toNat

def isAlphanumeric (c : Char) : Bool := isLetter c || isDecimal c || isOtherNumeric c

/-- Word characters: alphanumeric ones and the underscore. -/
def isWord (c : Char) : Bool := isAlphanumeric c || c == '_'

/-- A declared name starts with a word character that is neither a decimal digit nor the
underscore. -/
def isNameStart (c : Char) : Bool := isAlphanumeric c && !isDecimal c

/-- White space that stripping removes. -/
def isBlank (c : Char) : Bool :=
  CharRanges.contains
    [(0x9, 0xD), (0x1C, 0x20), (0x85, 0x85), (0xA0, 0xA0), (0x1680, 0x1680), (0x2000, 0x200A),
     (0x2028, 0x2029), (0x202F, 0x202F), (0x205F, 0x205F), (0x3000, 0x3000)] c.toNat

def isPrintable (c : Char) : Bool := !CharRanges.contains CharRanges.unprintables c.toNat

/-- The value of a decimal digit of any script. -/
def digitValue? (c : Char) : Option Nat :=
  (CharRanges.start? CharRanges.decimals c.toNat).map fun low => (c.toNat - low) % 10

def stripStart (t : Text) : Text := t.dropWhile isBlank

def stripEnd (t : Text) : Text := (t.reverse.dropWhile isBlank).reverse

def strip (t : Text) : Text := stripEnd (stripStart t)

/-- Whether nothing is left after stripping. -/
def isBlankText (t : Text) : Bool := t.all isBlank

/-- The pieces between the separators, empty ones included. -/
def pieces (separator : Char) : Text → List Text
  | [] => [[]]
  | c :: rest =>
    if c = separator then [] :: pieces separator rest
    else match pieces separator rest with
      | [] => [[c]]
      | first :: others => (c :: first) :: others

/-- The text before the first separator, and the text after it if there is one. -/
def cut (separator : Char) : Text → Text × Option Text
  | [] => ([], none)
  | c :: rest =>
    if c = separator then ([], some rest)
    else ((c :: (cut separator rest).1), (cut separator rest).2)

def join (separator : Text) (parts : List Text) : Text := List.intercalate separator parts

theorem pieces_ne_nil (separator : Char) (t : Text) : pieces separator t ≠ [] := by
  cases t with
  | nil => simp [pieces]
  | cons c rest =>
    unfold pieces
    split
    · simp
    · split <;> simp

/-- Joining the pieces gives the text back. -/
theorem join_pieces (separator : Char) (t : Text) :
    join [separator] (pieces separator t) = t := by
  induction t with
  | nil => rfl
  | cons c rest ih =>
    unfold pieces
    cases found : pieces separator rest with
    | nil => exact absurd found (pieces_ne_nil separator rest)
    | cons first others =>
      rw [found] at ih
      split
      · simp_all [join, List.intercalate]
      · cases others <;> simp_all [join, List.intercalate]

theorem cut_fst (separator : Char) (t : Text) :
    (cut separator t).1 = t.takeWhile (· ≠ separator) := by
  induction t with
  | nil => rfl
  | cons c rest ih => by_cases same : c = separator <;> simp [cut, same, ih]

/-- Characters that end a displayed line. -/
def isLineBreak (c : Char) : Bool :=
  CharRanges.contains
    [(0xA, 0xD), (0x1C, 0x1E), (0x85, 0x85), (0x2028, 0x2029)] c.toNat

/-- The displayed lines. A carriage return and the line feed after it end one line, and a
break at the end of the text opens no further line. -/
def lines : Text → List Text
  | [] => []
  | '\r' :: '\n' :: rest => [] :: lines rest
  | c :: rest =>
    if isLineBreak c then [] :: lines rest
    else match lines rest with
      | [] => [[c]]
      | first :: others => (c :: first) :: others

/-- Every carriage return, alone or before a line feed, becomes a line feed. -/
def universalNewlines : Text → Text
  | [] => []
  | '\r' :: '\n' :: rest => '\n' :: universalNewlines rest
  | '\r' :: rest => '\n' :: universalNewlines rest
  | c :: rest => c :: universalNewlines rest

def ofNat (n : Nat) : Text := Nat.toDigits 10 n

def ofInt (n : Int) : Text := if n < 0 then '-' :: ofNat n.natAbs else ofNat n.natAbs

/-- At least the given number of digits, with zeros in front. -/
def padded (width n : Nat) : Text :=
  List.replicate (width - (ofNat n).length) '0' ++ ofNat n

/-- A hexadecimal digit below sixteen. -/
def hexDigit (n : Nat) : Char := Nat.digitChar n

/-- Exactly the given number of lower-case hexadecimal digits, the low ones. -/
def hex : Nat → Nat → Text
  | 0, _ => []
  | width + 1, n => hex width (n / 16) ++ [hexDigit (n % 16)]

def upperAscii (t : Text) : Text := t.map Char.toUpper

def lowerAscii (t : Text) : Text := t.map Char.toLower

/-- Whether the text ends in the suffix, letters compared without case. -/
def hasSuffix (suffix t : Text) : Bool := suffix.isSuffixOf (lowerAscii t)

end Text
end TapeLang
