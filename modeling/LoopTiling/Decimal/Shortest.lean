import LoopTiling.Decimal.Binary64
import LoopTiling.Text.Digit

/-!
# Shortest decimal text of a number

A finite number is written with the fewest significant digits that read back as the same number,
and of those with the digits nearest to it. The point is set positionally when the leading digit
stands for `10 ^ (-4)` up to `10 ^ 15`; otherwise an exponent of at least two digits follows.
-/
namespace LoopTiling

/-- Significant digits and the power of ten of the leading one. -/
structure Significand where
  digits : List Char
  leading : Int

def Significand.text (s : Significand) : List Char :=
  let n : Int := s.digits.length
  if 16 ≤ s.leading ∨ s.leading < -4 then
    let mark := if s.leading < 0 then '-' else '+'
    let exponent := Text.padDigits 2 (Text.digitsIn 10 s.leading.natAbs)
    match s.digits with
    | [] => []
    | [d] => d :: 'e' :: mark :: exponent
    | d :: rest => d :: '.' :: rest ++ 'e' :: mark :: exponent
  else if s.leading < 0 then
    '0' :: '.' :: List.replicate (-s.leading - 1).toNat '0' ++ s.digits
  else if n ≤ s.leading + 1 then
    s.digits ++ List.replicate (s.leading + 1 - n).toNat '0' ++ ['.', '0']
  else
    s.digits.take (s.leading + 1).toNat ++ '.' :: s.digits.drop (s.leading + 1).toNat

namespace Binary64

/-- The power of ten of the leading digit of a positive quotient. -/
def leadingPower (num den : Nat) : Int :=
  if den ≤ num then (Decimal.digitCount (num / den) : Int) - 1
  else if (den + num - 1) / num ≤ 1 then 0
  else -(Decimal.digitCount ((den + num - 1) / num - 1) : Int)

def inUnits (num den : Nat) (power : Int) : Nat × Nat :=
  (num * Decimal.tenTo (-power), den * Decimal.tenTo power)

/-- Whether `count * 10 ^ power` reads back as the positive number `x`. -/
def readsBack (x : Binary64) (count : Nat) (power : Int) : Bool :=
  ofRatio false (count * Decimal.tenTo power) (Decimal.tenTo (-power)) = x

/-- The multiple of `10 ^ power` that reads back as the positive number `x` and is nearest to its
value `num / den`, if one of its two neighbours there does. -/
def nearestOn? (x : Binary64) (num den : Nat) (power : Int) : Option Nat :=
  let (a, b) := inUnits num den power
  let low := a / b
  let near := Decimal.roundHalfEven a b
  let far := if near = low then low + 1 else low
  if readsBack x near power then some near
  else if readsBack x far power then some far
  else none

/-- Tries growing digit counts, the last of which always succeeds. -/
def shortestFrom (x : Binary64) (num den : Nat) (leading : Int) : (fuel n : Nat) → Nat × Int
  | 0, n => ((inUnits num den (leading - n)).1 / (inUnits num den (leading - n)).2, leading - n)
  | fuel + 1, n =>
    match nearestOn? x num den (leading - n) with
    | some count => (count, leading - n)
    | none => shortestFrom x num den leading fuel (n + 1)

def dropFinalZeros (digits : List Char) : List Char :=
  (digits.reverse.dropWhile (· = '0')).reverse

/-- The shortest digits of a positive finite number of value `num / den`. -/
def shortest (x : Binary64) (num den : Nat) : Significand :=
  let (count, power) := shortestFrom x num den (leadingPower num den) 17 0
  let digits := Nat.toDigits 10 count
  ⟨dropFinalZeros digits, power + digits.length - 1⟩

def text : Binary64 → String
  | .nan => "nan"
  | .infinite negative => if negative then "-inf" else "inf"
  | .finite negative m e =>
    let digits :=
      if m = 0 then ['0', '.', '0']
      else
        Significand.text
          (shortest (.finite false m e) (m * Decimal.twoTo e) (Decimal.twoTo (-e)))
    String.ofList (if negative then '-' :: digits else digits)

/-- The shortest text of a number with the digits in front of its point in groups of three. -/
def groupedText (x : Binary64) : String :=
  let digits := x.abs.text.toList
  let whole := Text.groupDigits (digits.takeWhile Char.isDigit)
  String.ofList ((if x.isNegative then ['-'] else []) ++ whole ++ digits.dropWhile Char.isDigit)

/-- The text of a finite number with a fixed number of decimal places, rounded from its exact
value. -/
def fixed (places : Nat) : Binary64 → String
  | .nan => "nan"
  | .infinite negative => if negative then "-inf" else "inf"
  | .finite negative m e =>
    let digits := Decimal.fixedPlaces places (m * Decimal.twoTo e) (Decimal.twoTo (-e))
    String.ofList (if negative then '-' :: digits else digits)

end Binary64

end LoopTiling
