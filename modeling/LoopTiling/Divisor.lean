import LoopTiling.Value.Number

/-!
# Divisors and prime factors

Both searches try candidates up to the square root. A divisor below the root brings its cofactor
above it, so the small ones are found in ascending order and the large ones in descending order.
The prime search divides each candidate out as often as it goes; what is left above one at the end is
prime. A number that nothing divides is left as it was given.
-/
namespace LoopTiling.Divisor

/-- Looks for divisors of `n` from `i` on; `small` and `large` are those found, the last one
first. -/
def divisorsFrom (n : Nat) : (fuel i : Nat) → (small large : List Nat) → List Nat × List Nat
  | 0, _, small, large => (small.reverse, large)
  | fuel + 1, i, small, large =>
    if i * i ≤ n then
      if n % i = 0 then
        divisorsFrom n fuel (i + 1) (i :: small) (if i * i = n then large else n / i :: large)
      else divisorsFrom n fuel (i + 1) small large
    else (small.reverse, large)

def divisors (n : Nat) : List Nat :=
  let (small, large) := divisorsFrom n n 1 [] []
  small ++ large

/-- Divides `d` out of `n` as often as it goes; `found` are the factors so far, the last one first.
The result is the factors and what is left. -/
def divideOut (d : Nat) : (fuel n : Nat) → (found : List Nat) → List Nat × Nat
  | 0, n, found => (found, n)
  | fuel + 1, n, found =>
    if n % d = 0 then divideOut d fuel (n / d) (d :: found) else (found, n)

def primesFrom : (fuel n d : Nat) → (found : List Nat) → List Nat × Nat
  | 0, n, _, found => (found.reverse, n)
  | fuel + 1, n, d, found =>
    if d * d ≤ n then
      let (found, left) := divideOut d n n found
      primesFrom fuel left (d + 1) found
    else (found.reverse, n)

/-- The prime factors of a number, ascending and with repetition; none below two. -/
def primeFactors (n : Nat) : List Nat :=
  if n ≤ 1 then []
  else
    let (found, left) := primesFrom n n 2 []
    if 1 < left then found ++ [left] else found

def wholeOf? : Number → Option Int
  | .int k => some k
  | .word w => some w.toInt
  | .float x => x.whole?
  | .real x => x.whole?

def inFormOf (n : Nat) : Number → Number
  | .int _ => .int n
  | .word _ => .word (Int64.ofNat n)
  | .float _ => .float (.ofInt n)
  | .real _ => .real (.ofInt n)

/-- The divisors that a value has: those of a positive whole number, and only `1` where nothing is
positive. The cofactors have the form of the number. -/
def divisorsOf (n : Value) (withOne : Value) : Except Fault (List Number) := do
  let x ← n.asNumber
  if x.less (.int 0) || x.equal (.int 0) then
    return if withOne.truthy then [.int 1] else []
  let k := ((wholeOf? x).getD 0).toNat
  let (small, large) := divisorsFrom k k 1 [] []
  let found := small.map Number.ofNat ++ large.map fun d => inFormOf d x
  if withOne.truthy then return found
  match found with
  | [] => throw (.unsupported .value)
  | _ :: rest => return rest

/-- The prime factors that a value has. What is left has the form of the number, and is the value
itself where nothing has been divided out. -/
def primeFactorsOf (n : Value) : Except Fault (List Value) := do
  let x ← n.asNumber
  if !(Number.int 1).less x then return []
  match wholeOf? x with
  | none => return [n]
  | some k =>
    let (found, left) := primesFrom k.toNat k.toNat 2 []
    let factors := found.map fun (p : Nat) => Value.int p
    if left ≤ 1 then return factors
    return factors ++ [if found.isEmpty then n else (inFormOf left x).toValue]

end LoopTiling.Divisor
