import LoopTiling.Decimal.Rounding
import LoopTiling.Text.Blank

/-!
# Numbers of the binary64 format

A finite number is a sign, a mantissa below `2 ^ 53` and a power of two of at least `2 ^ (-1074)`,
held exactly; the mantissa has its full 53 bits unless the power is the least one, so each number
has one form. Every operation is exact arithmetic followed by one rounding to the nearest number,
a half going to the even mantissa.
-/
namespace LoopTiling

/-- A number of the binary64 format: not a number, an infinity, or
`± mantissa * 2 ^ exponent`. -/
inductive Binary64
  | nan
  | infinite (negative : Bool)
  | finite (negative : Bool) (mantissa : Nat) (exponent : Int)
deriving DecidableEq, Inhabited

namespace Binary64

def minExponent : Int := -1074

def maxExponent : Int := 971

def zero (negative : Bool) : Binary64 := .finite negative 0 minExponent

/-- The numerator of `num / den` when the unit is `2 ^ exponent`. -/
def scaledNum (num : Nat) (exponent : Int) : Nat := num * Decimal.twoTo (-exponent)

def scaledDen (den : Nat) (exponent : Int) : Nat := den * Decimal.twoTo exponent

/-- The power of two in whose units a positive quotient lies between `2 ^ 52` and `2 ^ 53`, raised
to the least one where it is smaller. -/
def unitOf (num den : Nat) : Int :=
  let e : Int := (num.log2 : Int) - den.log2 - 52
  let e := if scaledNum num e < Decimal.twoTo 52 * scaledDen den e then e - 1 else e
  max e minExponent

/-- The number nearest to `± num / den`. -/
def ofRatio (negative : Bool) (num den : Nat) : Binary64 :=
  if num = 0 then zero negative else
  let e := unitOf num den
  let m := Decimal.roundHalfEven (scaledNum num e) (scaledDen den e)
  let (m, e) := if m = Decimal.twoTo 53 then (Decimal.twoTo 52, e + 1) else (m, e)
  if maxExponent < e then .infinite negative else .finite negative m e

def ofInt (n : Int) : Binary64 := ofRatio (n < 0) n.natAbs 1

/-- The exact value of a finite number as a numerator and a denominator. -/
def ratio? : Binary64 → Option (Int × Nat)
  | .finite negative m e =>
    let num : Int := m * Decimal.twoTo e
    some (if negative then -num else num, Decimal.twoTo (-e))
  | _ => none

/-- The integer that a finite number equals, if it is whole. -/
def whole? (x : Binary64) : Option Int :=
  match x.ratio? with
  | some (num, den) => if num.natAbs % den = 0 then some (num.tdiv den) else none
  | none => none

/-- The number with the other sign. -/
def negate : Binary64 → Binary64
  | .nan => .nan
  | .infinite negative => .infinite (!negative)
  | .finite negative m e => .finite (!negative) m e

def abs : Binary64 → Binary64
  | .nan => .nan
  | .infinite _ => .infinite false
  | .finite _ m e => .finite false m e

def isZero : Binary64 → Bool
  | .finite _ m _ => m == 0
  | _ => false

/-- The comparison of two numbers by value; nothing compares with what is not a number. -/
def compare? : Binary64 → Binary64 → Option Ordering
  | .nan, _ => none
  | _, .nan => none
  | .infinite a, .infinite b => some (compare b.toNat a.toNat)
  | .infinite a, .finite .. => some (if a then .lt else .gt)
  | .finite .., .infinite b => some (if b then .gt else .lt)
  | x@(.finite ..), y@(.finite ..) =>
    match x.ratio?, y.ratio? with
    | some (a, b), some (c, d) => some (compare (a * d) (c * b))
    | _, _ => none

/-- The comparison of an integer with a number, by exact value. -/
def compareInt? (n : Int) : Binary64 → Option Ordering
  | .nan => none
  | .infinite negative => some (if negative then .gt else .lt)
  | x@(.finite ..) => x.ratio?.map fun (a, b) => compare (n * b) a

/-- The number nearest to a signed quotient; `whenZero` is the sign of an exact zero. -/
def ofSignedRatio (whenZero : Bool) (num : Int) (den : Nat) : Binary64 :=
  ofRatio (if num = 0 then whenZero else num < 0) num.natAbs den

def isNegative : Binary64 → Bool
  | .nan => false
  | .infinite negative => negative
  | .finite negative _ _ => negative

def add : Binary64 → Binary64 → Binary64
  | .nan, _ => .nan
  | _, .nan => .nan
  | .infinite a, .infinite b => if a = b then .infinite a else .nan
  | .infinite a, _ => .infinite a
  | _, .infinite b => .infinite b
  | x@(.finite s ..), y@(.finite t ..) =>
    match x.ratio?, y.ratio? with
    | some (a, b), some (c, d) => ofSignedRatio (s && t) (a * d + c * b) (b * d)
    | _, _ => .nan

def sub (x y : Binary64) : Binary64 := x.add y.negate

def mul : Binary64 → Binary64 → Binary64
  | .nan, _ => .nan
  | _, .nan => .nan
  | .infinite a, y => if y.isZero then .nan else .infinite (a != y.isNegative)
  | x, .infinite b => if x.isZero then .nan else .infinite (x.isNegative != b)
  | x@(.finite s ..), y@(.finite t ..) =>
    match x.ratio?, y.ratio? with
    | some (a, b), some (c, d) => ofSignedRatio (s != t) (a * c) (b * d)
    | _, _ => .nan

end Binary64

end LoopTiling
