import LoopTiling.Decimal.Division
import LoopTiling.Decimal.Shortest

/-!
# Counts

Sizes of spaces grow beyond what can be read. A count below one million is written out with its
digits in groups; a larger one is a mantissa, rounded to a number of places, and a power of ten. The
power is that of the leading digit, whatever the mantissa rounds to. A floating number is counted by
the characters of its text instead.
-/
namespace LoopTiling.Decimal

/-- From here on counts are written with a power of ten. -/
def exactBelow : Nat := 1000000

def magnitude (n : Int) : Nat := digitCount n.natAbs - 1

def mantissa (n : Int) : Binary64 := .ofRatio (n < 0) n.natAbs (tenTo (magnitude n))

def scientific (places : Nat) (mantissa : Binary64) (power : Nat) : String :=
  mantissa.fixed places ++
    String.ofList ('e' :: '+' :: Text.padDigits 2 (Text.digitsIn 10 power))

/-- A floating number divided by a power of ten, both rounded. -/
def roundedMantissa (x : Binary64) (power : Nat) : Binary64 := x.div (.ofInt (tenTo power))

/-- The text of a count, if it has few enough digits. -/
def countText? [Text.DigitLimit] (places : Nat) (n : Int) : Option String :=
  if n.natAbs < exactBelow then Text.grouped? n
  else if Text.isShort n then some (scientific places (mantissa n) (magnitude n))
  else none

/-- The text of a large count that is a word: it becomes a floating number before it is divided. -/
def wordCountText (places : Nat) (w : Int64) : String :=
  let power := magnitude w.toInt
  scientific places (roundedMantissa (.ofInt w.toInt) power) power

/-- Whether a floating number is large enough for a power of ten. -/
def isLarge (x : Binary64) : Bool :=
  match x.abs.compareInt? exactBelow with
  | some order => order != .gt
  | none => false

/-- The text of a large floating number; the power is one less than the characters it has without
its sign. -/
def floatCountText (places : Nat) (x : Binary64) : String :=
  let power := x.abs.text.length - 1
  scientific places (roundedMantissa x power) power

def count? [Text.DigitLimit] (n : Nat) : Option String := countText? 2 n

end LoopTiling.Decimal
