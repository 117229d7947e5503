import Mathlib.Algebra.Order.Ring.Nat
import Mathlib.Data.Int.Notation
import Mathlib.Data.Nat.Notation
import LoopTiling.Decimal.Shortest

/-!
# Rounded quotients

A quotient that is rounded to whole numbers stays between the whole numbers that it lies between, and falls
below an even one exactly if it lies more than half a unit below it, as a half is rounded up to it. The
binary64 number nearest to a quotient from one up to `2 ^ 52` is a rounded multiple of the power of two that
leaves it 53 bits.
-/
namespace LoopTiling

namespace Decimal

variable {num den k : ℕ}

theorem roundHalfEven_le (hden : 0 < den) (h : num ≤ k * den) : roundHalfEven num den ≤ k := by
  have hhalf := roundHalfEven_mul_le num den
  by_contra hlt
  have hmul : den * (k + 1) ≤ den * roundHalfEven num den := Nat.mul_le_mul_left den (by omega)
  rw [Nat.mul_succ, Nat.mul_comm den k] at hmul
  omega

theorem le_roundHalfEven (hden : 0 < den) (h : k * den ≤ num) : k ≤ roundHalfEven num den := by
  have hhalf := le_roundHalfEven_mul hden num
  by_contra hlt
  have hmul : den * (roundHalfEven num den + 1) ≤ den * k := Nat.mul_le_mul_left den (by omega)
  rw [Nat.mul_succ, Nat.mul_comm den k] at hmul
  omega

/-- A half below an even number is rounded up to it. -/
theorem roundHalfEven_of_half (hk : (k + 1) % 2 = 0) (hden : 0 < den)
    (h : 2 * num = 2 * (k * den) + den) : roundHalfEven num den = k + 1 := by
  have hquot : num / den = k := by
    apply Nat.div_eq_of_lt_le
    · omega
    · rw [Nat.succ_mul]
      omega
  have hdiv := Nat.div_add_mod num den
  rw [hquot, Nat.mul_comm den k] at hdiv
  have hodd : ¬ k % 2 = 0 := by omega
  simp only [roundHalfEven]
  rw [hquot, if_neg (by omega), if_neg (by omega), if_neg hodd]

theorem roundHalfEven_lt_iff (hk : k % 2 = 0) (hpos : 0 < k) (hden : 0 < den) :
    roundHalfEven num den < k ↔ 2 * num + den < 2 * (k * den) := by
  obtain ⟨j, rfl⟩ : ∃ j, k = j + 1 := ⟨k - 1, by omega⟩
  have hlow := roundHalfEven_mul_le num den
  have hhigh := le_roundHalfEven_mul hden num
  rw [Nat.succ_mul j den]
  constructor
  · intro hlt
    have hmul : den * roundHalfEven num den ≤ den * j := Nat.mul_le_mul_left den (by omega)
    rw [Nat.mul_comm den j] at hmul
    by_contra hnot
    have hhalf : 2 * num = 2 * (j * den) + den := by omega
    have hround := roundHalfEven_of_half hk hden hhalf
    omega
  · intro hlt
    by_contra hnot
    have hmul : den * (j + 1) ≤ den * roundHalfEven num den := Nat.mul_le_mul_left den (by omega)
    rw [Nat.mul_succ, Nat.mul_comm den j] at hmul
    omega

theorem roundHalfEven_mul_right (num den : ℕ) {c : ℕ} (hc : 0 < c) :
    roundHalfEven (num * c) (den * c) = roundHalfEven num den := by
  have hlow : 2 * (num % den * c) < den * c ↔ 2 * (num % den) < den := by
    rw [← Nat.mul_assoc, Nat.mul_lt_mul_right hc]
  have hhigh : den * c < 2 * (num % den * c) ↔ den < 2 * (num % den) := by
    rw [← Nat.mul_assoc, Nat.mul_lt_mul_right hc]
  simp only [roundHalfEven, Nat.mul_div_mul_right _ _ hc, Nat.mul_mod_mul_right, hlow, hhigh]

theorem fixedPlaces_mul_right (places num den : ℕ) {c : ℕ} (hc : 0 < c) :
    fixedPlaces places (num * c) (den * c) = fixedPlaces places num den := by
  rw [fixedPlaces, Nat.mul_right_comm, roundHalfEven_mul_right _ _ hc, fixedPlaces]

theorem twoTo_natCast (k : ℕ) : twoTo (k : ℤ) = 2 ^ k := rfl

theorem twoTo_neg_natCast (k : ℕ) : twoTo (-(k : ℤ)) = 1 := by
  rw [twoTo, Int.toNat_neg_natCast, Nat.pow_eq, Nat.pow_zero]

end Decimal

namespace Binary64

open Decimal

variable {num den : ℕ}

/-- Whether a quotient has 53 bits in front of its point when it is multiplied by `2 ^ k`. -/
def HasBits (num den k : ℕ) : Prop := 2 ^ 52 * den ≤ num * 2 ^ k ∧ num * 2 ^ k < 2 ^ 53 * den

/-- The leading bits alone leave a quotient 52 or 53 bits. -/
theorem exists_log2_eq (hden : 0 < den) (hle : den ≤ num) (hlt : num < 2 ^ 52 * den) :
    ∃ j : ℕ, j ≤ 52 ∧ (num.log2 : ℤ) - den.log2 - 52 = -(j : ℤ) ∧ num * 2 ^ j < 2 ^ 53 * den ∧
      2 ^ 52 * den < num * 2 ^ (j + 1) := by
  have hnum : num ≠ 0 := by omega
  have hden_low : 2 ^ den.log2 ≤ den := Nat.log2_self_le hden.ne'
  have hden_high : den < 2 ^ (den.log2 + 1) := Nat.lt_log2_self
  have hnum_low : 2 ^ num.log2 ≤ num := Nat.log2_self_le hnum
  have hnum_high : num < 2 ^ (num.log2 + 1) := Nat.lt_log2_self
  have hlow : den.log2 ≤ num.log2 := (Nat.le_log2 hnum).mpr (hden_low.trans hle)
  have hhigh : num.log2 < 52 + (den.log2 + 1) := by
    apply (Nat.log2_lt hnum).mpr
    rw [Nat.pow_add]
    exact hlt.trans (Nat.mul_lt_mul_of_pos_left hden_high (Nat.two_pow_pos 52))
  obtain ⟨j, hj⟩ : ∃ j, num.log2 + j = 52 + den.log2 := ⟨52 + den.log2 - num.log2, by omega⟩
  refine ⟨j, by omega, by omega, ?_, ?_⟩
  · calc num * 2 ^ j < 2 ^ (num.log2 + 1) * 2 ^ j :=
          Nat.mul_lt_mul_of_pos_right hnum_high (Nat.two_pow_pos j)
      _ = 2 ^ 53 * 2 ^ den.log2 := by
          rw [← Nat.pow_add, ← Nat.pow_add]
          congr 1
          omega
      _ ≤ 2 ^ 53 * den := Nat.mul_le_mul_left _ hden_low
  · calc 2 ^ 52 * den < 2 ^ 52 * 2 ^ (den.log2 + 1) :=
          Nat.mul_lt_mul_of_pos_left hden_high (Nat.two_pow_pos 52)
      _ = 2 ^ num.log2 * 2 ^ (j + 1) := by
          rw [← Nat.pow_add, ← Nat.pow_add]
          congr 1
          omega
      _ ≤ num * 2 ^ (j + 1) := Nat.mul_le_mul_right _ hnum_low

theorem exists_unitOf_eq (hden : 0 < den) (hle : den ≤ num) (hlt : num < 2 ^ 52 * den) :
    ∃ k : ℕ, unitOf num den = -(k : ℤ) ∧ HasBits num den k := by
  obtain ⟨j, hj, hexponent, hupper, hlower⟩ := exists_log2_eq hden hle hlt
  have hnormal (k : ℕ) (hk : k ≤ 53) : max (-(k : ℤ)) minExponent = -k := by
    apply max_eq_left
    rw [minExponent]
    omega
  have hunit : unitOf num den =
      max (if num * 2 ^ j < 2 ^ 52 * den then -(j : ℤ) - 1 else -j) minExponent := by
    simp only [unitOf, hexponent, scaledNum, scaledDen, neg_neg, twoTo_natCast, twoTo_neg_natCast,
      Nat.mul_one]
    rfl
  rw [hunit]
  by_cases hsmall : num * 2 ^ j < 2 ^ 52 * den
  · have hnext : -(j : ℤ) - 1 = -((j + 1 : ℕ) : ℤ) := by omega
    rw [if_pos hsmall, hnext, hnormal (j + 1) (by omega)]
    refine ⟨j + 1, rfl, hlower.le, ?_⟩
    rw [Nat.pow_succ, ← Nat.mul_assoc]
    omega
  · rw [if_neg hsmall, hnormal j (by omega)]
    exact ⟨j, rfl, Nat.le_of_not_lt hsmall, hupper⟩

theorem fixed_finite (places : ℕ) (negative : Bool) (m k : ℕ) :
    (finite negative m (-(k : ℤ))).fixed places =
      String.ofList ((if negative then ['-'] else []) ++ fixedPlaces places m (2 ^ k)) := by
  simp only [fixed, twoTo_neg_natCast, neg_neg, twoTo_natCast, Nat.mul_one]
  cases negative <;> rfl

/-- The fixed text of the number nearest to a quotient is that of a rounded multiple of a power of two. -/
theorem exists_fixed_ofRatio (negative : Bool) (hden : 0 < den) (hle : den ≤ num)
    (hlt : num < 2 ^ 52 * den) : ∃ k : ℕ, HasBits num den k ∧ ∀ places,
      (ofRatio negative num den).fixed places = String.ofList ((if negative then ['-'] else []) ++
        fixedPlaces places (roundHalfEven (num * 2 ^ k) den) (2 ^ k)) := by
  obtain ⟨k, hunit, hbits⟩ := exists_unitOf_eq hden hle hlt
  have hnum : num ≠ 0 := by omega
  have hround : roundHalfEven (scaledNum num (-(k : ℤ))) (scaledDen den (-(k : ℤ))) =
      roundHalfEven (num * 2 ^ k) den := by
    rw [scaledNum, scaledDen, neg_neg, twoTo_natCast, twoTo_neg_natCast, Nat.mul_one]
  have htop : twoTo 53 = 2 ^ 53 := rfl
  refine ⟨k, hbits, fun places => ?_⟩
  by_cases hcarry : roundHalfEven (num * 2 ^ k) den = 2 ^ 53
  · -- A rounding up to the next power of two is held with one bit less behind the point.
    obtain ⟨j, rfl⟩ : ∃ j, k = j + 1 := by
      apply Nat.exists_eq_succ_of_ne_zero
      rintro rfl
      have hbits' := hbits.1
      omega
    have hnearest : ofRatio negative num den = finite negative (2 ^ 52) (-(j : ℤ)) := by
      have hexponent : -((j + 1 : ℕ) : ℤ) + 1 = -(j : ℤ) := by omega
      have hfinite : ¬ maxExponent < -(j : ℤ) := by
        rw [maxExponent]
        omega
      simp only [ofRatio, if_neg hnum, hunit, hround, hcarry, htop, if_true, hexponent,
        if_neg hfinite]
      rfl
    rw [hnearest, fixed_finite, hcarry, Nat.pow_succ 2 52, Nat.pow_succ 2 j,
      fixedPlaces_mul_right _ _ _ Nat.two_pos]
  · have hnearest : ofRatio negative num den =
        finite negative (roundHalfEven (num * 2 ^ k) den) (-(k : ℤ)) := by
      have hfinite : ¬ maxExponent < -(k : ℤ) := by
        rw [maxExponent]
        omega
      simp only [ofRatio, if_neg hnum, hunit, hround, htop, if_neg hcarry, if_neg hfinite]
    rw [hnearest, fixed_finite]

end Binary64

end LoopTiling
