import LoopTiling.Decimal.Binary64

/-!
# Division of numbers of the binary64 format

The quotient is rounded once. The remainder is exact: what is left of the dividend after as many
divisors as fit, with the dividend's sign. Floored division starts from both, rounds at each step,
and gives the remainder the sign of the divisor; where the quotient is large its floor is that of a
rounded number and not of the exact one.
-/
namespace LoopTiling.Binary64

/-- The quotient, rounded. A zero divisor gives an infinity, or no number if the dividend is zero
too. -/
def div : Binary64 → Binary64 → Binary64
  | .nan, _ => .nan
  | _, .nan => .nan
  | .infinite _, .infinite _ => .nan
  | .infinite a, y => .infinite (a != y.isNegative)
  | x, .infinite b => zero (x.isNegative != b)
  | x@(.finite s ..), y@(.finite t ..) =>
    if y.isZero then if x.isZero then .nan else .infinite (s != t)
    else
      match x.ratio?, y.ratio? with
      | some (a, b), some (c, d) => ofRatio (s != t) (a.natAbs * d) (b * c.natAbs)
      | _, _ => .nan

/-- What is left of a number after taking away as many divisors as fit, with its sign. -/
def rem : Binary64 → Binary64 → Binary64
  | .nan, _ => .nan
  | .infinite _, _ => .nan
  | _, .nan => .nan
  | x, .infinite _ => x
  | x@(.finite s ..), y@(.finite ..) =>
    if y.isZero then .nan
    else
      match x.ratio?, y.ratio? with
      | some (a, b), some (c, d) => ofRatio s (a.natAbs * d % (b * c.natAbs)) (b * d)
      | _, _ => .nan

def floor (x : Binary64) : Binary64 :=
  match x.ratio? with
  | some (a, b) => ofSignedRatio x.isNegative (a.fdiv b) 1
  | none => x

def isLess (x y : Binary64) : Bool := x.compare? y == some .lt

/-- The whole number that a rounded quotient stands for: its floor, or the next one if that is
nearer. -/
def snap (q : Binary64) : Binary64 :=
  let low := q.floor
  if (ofRatio false 1 2).isLess (q.sub low) then low.add (ofInt 1) else low

/-- A quotient and a remainder whose sign is not that of the divisor, brought to the next
divisor. -/
def carry (y q r : Binary64) : Binary64 × Binary64 :=
  if r.isZero then (q, zero y.isNegative)
  else if y.isLess (zero false) = r.isLess (zero false) then (q, r)
  else (q.sub (ofInt 1), r.add y)

/-- The floor of the quotient and the remainder with the divisor's sign. -/
def divMod (x y : Binary64) : Binary64 × Binary64 :=
  let r := x.rem y
  if y.isZero then (x.div y, r)
  else
    let (q, r) := carry y ((x.sub r).div y) r
    (if q.isZero then zero (x.div y).isNegative else q.snap, r)

end LoopTiling.Binary64
