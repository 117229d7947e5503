import Mathlib.Algebra.GroupWithZero.Basic
import Mathlib.Algebra.Order.Ring.Int
import Mathlib.Order.Compare
import LoopTiling.Value.Same

/-!
# Whole numbers as keys

Two values that are whole numbers are the same key exactly if the numbers are equal, and no value
is the same key as two integers.
-/
namespace LoopTiling

theorem Binary64.eq_of_compareInt? {x : Binary64} {m n : ℤ} (hm : x.compareInt? m = some .eq)
    (hn : x.compareInt? n = some .eq) : m = n := by
  cases x with
  | nan => cases hm
  | infinite negative => cases negative <;> cases hm
  | finite negative k e =>
    have hpos : 0 < Decimal.twoTo (-e) := Nat.pow_pos Nat.two_pos
    have hden : (Decimal.twoTo (-e) : ℤ) ≠ 0 := by omega
    simp only [compareInt?, ratio?, Option.map_some, Option.some.injEq, compare_eq_iff_eq] at hm hn
    exact mul_right_cancel₀ hden (hm.trans hn.symm)

namespace Value

variable {v w : Value} {m n : ℤ}

theorem index?_of_numeral? {n : Numeral} (h : v.numeral? = some n) : v.index? = some n.toInt := by
  cases v with
  | int | dim =>
    rw [numeral?, Option.some.injEq] at h
    rw [← h]
    rfl
  | _ => cases h

theorem sameInt_of_index? (hw : w.index? = some n) : sameInt m w = true ↔ m = n := by
  cases w with
  | flag | int | word | dim =>
    rw [sameInt, hw, beq_iff_eq, Option.some.injEq]
    · exact eq_comm
    · simp
  | _ => cases hw

theorem same_of_index? (hv : v.index? = some m) (hw : w.index? = some n) :
    v.same w = true ↔ m = n := by
  cases v with
  | flag | int | word | dim =>
    rw [same, sameInt_of_index? hw]
    rw [index?, Option.some.injEq] at hv
    rw [hv]
  | _ => cases hv

theorem eq_of_same_int (hm : v.same (.int m) = true) (hn : v.same (.int n) = true) : m = n := by
  have hint (k : ℤ) : (Value.int k).index? = some k := rfl
  cases v with
  | flag | int | word | dim =>
    rw [same, sameInt_of_index? (hint _)] at hm hn
    exact hm.symm.trans hn
  | float x =>
    simp only [same, hint, beq_iff_eq] at hm hn
    exact x.eq_of_compareInt? hm hn
  | _ =>
    rw [same] at hm
    · cases hm
    all_goals simp

end Value

end LoopTiling
