import LoopTiling.Decimal.Binary64
import LoopTiling.Text.Digit

/-!
# Reading a decimal number

A decimal number is digits with an optional sign, point and exponent; `nan`, `inf` and
`infinity` in either case name the special values. The result is the nearest number of the binary64
format.
-/
namespace LoopTiling

def Decimal.spanDigits (s : List Char) : List Char × List Char :=
  (s.takeWhile Char.isDigit, s.dropWhile Char.isDigit)

def Decimal.digitsValue (s : List Char) : Nat :=
  s.foldl (fun n c => 10 * n + (c.toNat - 48)) 0

namespace Binary64

/-- The number nearest to `± digits * 10 ^ exponent`. Exponents far outside the range of the
format are settled without computing the power. -/
def ofScientific (negative : Bool) (digits : Nat) (exponent : Int) : Binary64 :=
  if digits = 0 then zero negative
  else if exponent + Decimal.digitCount digits < -400 then zero negative
  else if 400 < exponent + Decimal.digitCount digits then .infinite negative
  else ofRatio negative (digits * Decimal.tenTo exponent) (Decimal.tenTo (-exponent))

/-- Reads an exponent with its letter, or nothing at all. -/
def readExponent? : List Char → Option Int
  | [] => some 0
  | e :: rest =>
    if e ≠ 'e' ∧ e ≠ 'E' then none else
    let (negative, digits) :=
      match rest with
      | '-' :: ds => (true, ds)
      | '+' :: ds => (false, ds)
      | ds => (false, ds)
    if digits.isEmpty || !digits.all Char.isDigit then none
    else
      let n : Int := Decimal.digitsValue digits
      some (if negative then -n else n)

def readUnsigned? (negative : Bool) (s : List Char) : Option Binary64 :=
  match String.ofList (s.map Char.toLower) with
  | "nan" => some .nan
  | "inf" => some (.infinite negative)
  | "infinity" => some (.infinite negative)
  | _ =>
    let (whole, rest) := Decimal.spanDigits s
    let (part, rest) :=
      match rest with
      | '.' :: more => Decimal.spanDigits more
      | more => ([], more)
    if whole.isEmpty && part.isEmpty then none
    else
      (readExponent? rest).map fun exponent =>
        ofScientific negative (Decimal.digitsValue (whole ++ part)) (exponent - part.length)

/-- Reads a number with an optional sign and blanks around it. -/
def ofText? (s : String) : Option Binary64 :=
  match Text.trim s.toList with
  | '-' :: rest => readUnsigned? true rest
  | '+' :: rest => readUnsigned? false rest
  | rest => readUnsigned? false rest

end Binary64

end LoopTiling
