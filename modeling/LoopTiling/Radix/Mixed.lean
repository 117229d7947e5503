import LoopTiling.Value.Order

/-!
# Mixed radix numbers

A rank in a product of axes is a list of digits, one for each axis, the first axis least
significant. `digits` and `rank` work on natural numbers; `decode` and `encode` take numbers of
any form and refuse what is no digit.
-/
namespace LoopTiling.Radix

/-- The number of ranks, the product of the radices. -/
def volume : List Nat → Nat
  | [] => 1
  | r :: rs => r * volume rs

def digits : List Nat → Nat → List Nat
  | [], _ => []
  | r :: rs, n => n % r :: digits rs (n / r)

def rank : List Nat → List Nat → Nat
  | r :: rs, d :: ds => d + r * rank rs ds
  | _, _ => 0

theorem volume_append (rs ss : List Nat) : volume (rs ++ ss) = volume rs * volume ss := by
  induction rs with
  | nil => simp [volume]
  | cons r rs ih => simp [volume, ih, Nat.mul_assoc]

@[simp] theorem length_digits (rs : List Nat) (n : Nat) : (digits rs n).length = rs.length := by
  induction rs generalizing n with
  | nil => rfl
  | cons r rs ih => simp [digits, ih]

/-- The axes behind a cut read the quotient by the volume before it. -/
theorem digits_append (rs ss : List Nat) (n : Nat) :
    digits (rs ++ ss) n = digits rs n ++ digits ss (n / volume rs) := by
  induction rs generalizing n with
  | nil => simp [digits, volume]
  | cons r rs ih => simp [digits, volume, ih, Nat.div_div_eq_div_mul]

/-- Digits lose nothing of a rank but the part that no axis holds. -/
theorem rank_digits (rs : List Nat) (n : Nat) : rank rs (digits rs n) = n % volume rs := by
  induction rs generalizing n with
  | nil => simp [rank, volume, Nat.mod_one]
  | cons r rs ih => rw [digits, rank, ih, volume, Nat.mod_mul]

def decode : List Value → Number → Except Fault (List Number)
  | [], _ => .ok []
  | r :: rs, n => do
    let (rest, digit) ← n.divMod (← r.asNumber)
    return digit :: (← decode rs rest)

/-- The digits of any value as a rank; without axes there is nothing to read. -/
def decodeValue (radices : List Value) (rank : Value) : Except Fault (List Number) :=
  if radices.isEmpty then .ok [] else do decode radices (← rank.asNumber)

/-- One more digit below a rank: checks it against its radix and adds it. -/
def pushDigit (radix digit : Value) (rank : Number) : Except Fault Number := do
  let d ← digit.asNumber
  if !d.nonneg then throw (.digitRange digit radix)
  if !(← digit.less radix) then throw (.digitRange digit radix)
  (← rank.mul (← radix.asNumber)).add d

/-- The rank of as many digits as radices, the last axis first. -/
def encodeFrom : List Value → List Value → Except Fault Number
  | r :: rs, d :: ds => do pushDigit r d (← encodeFrom rs ds)
  | _, _ => .ok (.int 0)

def encode (radices digits : List Value) : Except Fault Number :=
  if digits.length = radices.length then encodeFrom radices digits
  else .error (.digitCount radices.length digits.length)

end LoopTiling.Radix
