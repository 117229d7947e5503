/-!
# Rounding a quotient

All decimal and binary rounding of the library is one operation: a quotient of natural numbers is
rounded to the nearest whole number, and a half goes to the even neighbour.
-/
namespace LoopTiling.Decimal

/-- Two to a power, one for a negative power. -/
def twoTo (power : Int) : Nat := Nat.pow 2 power.toNat

/-- Ten to a power, one for a negative power. -/
def tenTo (power : Int) : Nat := Nat.pow 10 power.toNat

/-- `num / den` rounded to the nearest whole number, a half going to the even neighbour. -/
def roundHalfEven (num den : Nat) : Nat :=
  let q := num / den
  let r := num % den
  if 2 * r < den then q
  else if den < 2 * r then q + 1
  else if q % 2 = 0 then q
  else q + 1

/-- The rounded quotient is at most half a unit above the exact one. -/
theorem roundHalfEven_mul_le (num den : Nat) :
    2 * (den * roundHalfEven num den) ≤ 2 * num + den := by
  have hdiv := Nat.div_add_mod num den
  simp only [roundHalfEven]
  split
  · omega
  · split
    · rw [Nat.mul_succ]
      omega
    · split
      · omega
      · rw [Nat.mul_succ]
        omega

/-- The rounded quotient is at most half a unit below the exact one. -/
theorem le_roundHalfEven_mul {den : Nat} (hden : 0 < den) (num : Nat) :
    2 * num ≤ 2 * (den * roundHalfEven num den) + den := by
  have hdiv := Nat.div_add_mod num den
  have hlt := Nat.mod_lt num hden
  simp only [roundHalfEven]
  split
  · omega
  · split
    · rw [Nat.mul_succ]
      omega
    · split
      · omega
      · rw [Nat.mul_succ]
        omega

def digitCount (n : Nat) : Nat := (Nat.toDigits 10 n).length

def fixedPlaces (places num den : Nat) : List Char :=
  let scaled := Nat.toDigits 10 (roundHalfEven (num * tenTo places) den)
  let digits := List.replicate (places + 1 - scaled.length) '0' ++ scaled
  let whole := digits.length - places
  if places = 0 then digits else digits.take whole ++ '.' :: digits.drop whole

end LoopTiling.Decimal
