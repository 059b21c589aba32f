import Chip8.Text.Hex
import Chip8.Text.Printable

/-!
# Quoted text

A text between quotation marks, on one line and in printable characters. The marks are single
unless the text holds single marks and no double ones. The mark itself and the backslash are
escaped; line ends and tabs have short escapes, other characters that do not print are given by
their code point.
-/

namespace Chip8.Text.Quoted

/-- The mark that surrounds a text. -/
def markOf (s : List Char) : Char := if s.contains '\'' && !s.contains '"' then '"' else '\''

/-- A code point in lower-case hexadecimal digits, at least `width` of them. -/
def codeDigits (width : Nat) (c : Char) : List Char :=
  let ds := Nat.toDigits 16 c.toNat
  List.replicate (width - ds.length) '0' ++ ds

/-- The form of one character inside a text with the given marks. -/
def escape (mark c : Char) : List Char :=
  if c = mark || c = '\\' then ['\\', c]
  else if c = '\n' then ['\\', 'n']
  else if c = '\r' then ['\\', 'r']
  else if c = '\t' then ['\\', 't']
  else if isPrintable c then [c]
  else if c.toNat < 0x100 then '\\' :: 'x' :: codeDigits 2 c
  else if c.toNat < 0x10000 then '\\' :: 'u' :: codeDigits 4 c
  else '\\' :: 'U' :: codeDigits 8 c

/-- A text in quotation marks. -/
def quote (s : String) : String :=
  let mark := markOf s.toList
  String.ofList (mark :: s.toList.flatMap (escape mark) ++ [mark])

end Chip8.Text.Quoted
