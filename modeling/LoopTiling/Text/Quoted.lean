import LoopTiling.Text.Digit
import LoopTiling.Text.Printable

/-!
# Quoted text

A text is shown between single quotes, or between double quotes when it holds a single quote and
no double one. The quote in use, the backslash and every character that does not print are written
with a backslash.
-/
namespace LoopTiling.Text

def quoteMark (s : List Char) : Char :=
  if '\'' ∈ s ∧ '"' ∉ s then '"' else '\''

/-- A code point in hexadecimal, after a letter that tells how many digits follow. -/
def hexEscape (n : Nat) : List Char :=
  if n < 0x100 then '\\' :: 'x' :: padDigits 2 (digitsIn 16 n)
  else if n < 0x10000 then '\\' :: 'u' :: padDigits 4 (digitsIn 16 n)
  else '\\' :: 'U' :: padDigits 8 (digitsIn 16 n)

/-- One character as it stands between the quotes `mark`. -/
def escape (mark c : Char) : List Char :=
  if c = mark ∨ c = '\\' then ['\\', c]
  else if c = '\n' then ['\\', 'n']
  else if c = '\r' then ['\\', 'r']
  else if c = '\t' then ['\\', 't']
  else if isPrintable c then [c]
  else hexEscape c.toNat

def quoted (s : String) : String :=
  let mark := quoteMark s.toList
  String.ofList (mark :: s.toList.flatMap (escape mark) ++ [mark])

end LoopTiling.Text
