import LoopTiling.Decimal.Rounding
import LoopTiling.Text.Blank

/-!
# Decimal digits and whole numbers in text

Every script's decimal digits count, not only those of ASCII: each set of ten stands in ten
consecutive code points, of which `digitZeros` lists the first. A whole number is read with blanks
around it, one sign, and single underscores between digits. A limit on the number of its digits holds
both where it is read and where it is shown; whoever runs the library may set another one, or none.
-/
namespace LoopTiling.Text

/-- The code point of the digit zero in each script that has decimal digits, ascending. -/
def digitZeros : List Nat := [
  0x30, 0x660, 0x6f0, 0x7c0, 0x966, 0x9e6, 0xa66, 0xae6, 0xb66, 0xbe6, 0xc66, 0xce6, 0xd66,
  0xde6, 0xe50, 0xed0, 0xf20, 0x1040, 0x1090, 0x17e0, 0x1810, 0x1946, 0x19d0, 0x1a80, 0x1a90,
  0x1b50, 0x1bb0, 0x1c40, 0x1c50, 0xa620, 0xa8d0, 0xa900, 0xa9d0, 0xa9f0, 0xaa50, 0xabf0, 0xff10,
  0x104a0, 0x10d30, 0x11066, 0x110f0, 0x11136, 0x111d0, 0x112f0, 0x11450, 0x114d0, 0x11650,
  0x116c0, 0x11730, 0x118e0, 0x11950, 0x11c50, 0x11d50, 0x11da0, 0x16a60, 0x16ac0, 0x16b50,
  0x1d7ce, 0x1d7d8, 0x1d7e2, 0x1d7ec, 0x1d7f6, 0x1e140, 0x1e2f0, 0x1e950, 0x1fbf0]

def digitValue? (c : Char) : Option Nat :=
  (digitZeros.find? fun z => z ≤ c.toNat && c.toNat < z + 10).map (c.toNat - ·)

/-- The most digits a whole number may be written with, to be read or to be shown, if there is such
a limit. -/
class DigitLimit where
  most? : Option Nat

/-- Whole numbers have at most 4300 digits where nothing else is said. -/
instance DigitLimit.standard : DigitLimit := ⟨some 4300⟩

def allowsDigits [DigitLimit] (count : Nat) : Bool := DigitLimit.most?.all fun most => count ≤ most

/-- Reads digits with single underscores between them, continuing a number `value` that has
`count` digits so far; `needsDigit` tells whether a digit has to follow. -/
def readDigits (value count : Nat) (needsDigit : Bool) : List Char → Option (Nat × Nat)
  | [] => if needsDigit then none else some (value, count)
  | c :: rest =>
    if c = '_' then
      if needsDigit then none else readDigits value count true rest
    else
      match digitValue? c with
      | some d => readDigits (10 * value + d) (count + 1) false rest
      | none => none

def readNat? [DigitLimit] (s : List Char) : Option Nat :=
  match readDigits 0 0 true s with
  | some (value, count) => if allowsDigits count then some value else none
  | none => none

/-- Reads a whole number with an optional sign and blanks around it. -/
def readInt? [DigitLimit] (s : List Char) : Option Int :=
  match trimBy isGap s with
  | '-' :: digits => (readNat? digits).map fun n => -(n : Int)
  | '+' :: digits => (readNat? digits).map Int.ofNat
  | digits => (readNat? digits).map Int.ofNat

/-- The digits of a number in the given base, most significant first and in lower case. -/
def digitsIn (base : Nat) (n : Nat) : List Char := Nat.toDigits base n

def padDigits (width : Nat) (digits : List Char) : List Char :=
  List.replicate (width - digits.length) '0' ++ digits

/-- Whether a whole number has few enough digits to be shown. -/
def isShort [DigitLimit] (n : Int) : Bool :=
  DigitLimit.most?.all fun (most : Nat) => n.natAbs < Decimal.tenTo most

/-- A whole number in decimal digits, if it has few enough of them. -/
def decimal? [DigitLimit] (n : Int) : Option String := if isShort n then some (toString n) else none

/-- Digits given from the last to the first, with a comma after every full group of three that
is not the leading one. -/
def groupFromLast : List Char → List Char
  | a :: b :: c :: d :: rest => a :: b :: c :: ',' :: groupFromLast (d :: rest)
  | digits => digits

def groupDigits (digits : List Char) : List Char := (groupFromLast digits.reverse).reverse

/-- A whole number with its digits in groups of three, if it has few enough of them. -/
def grouped? [DigitLimit] (n : Int) : Option String :=
  if isShort n then
    let digits := groupDigits (digitsIn 10 n.natAbs)
    some (String.ofList (if n < 0 then '-' :: digits else digits))
  else none

end LoopTiling.Text
