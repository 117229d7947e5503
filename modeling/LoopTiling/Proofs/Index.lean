import Mathlib.Algebra.Order.Ring.Int
import LoopTiling.Proofs.Outcome
import LoopTiling.Value.Order

/-!
# Whole numbers as indices

Every space reads its index in the same way: a whole number is a place exactly if it is at least zero
and below the size of the space.
-/
namespace LoopTiling

theorem Number.less_int (m n : ℤ) : (Number.int m).less (.int n) = decide (m < n) := by
  rw [less, compare?]
  by_cases h : m < n
  · simp [h, compare_lt_iff_lt.mpr h]
  · have hne : compare m n ≠ .lt := fun he => h (compare_lt_iff_lt.mp he)
    simp [h, hne]

namespace Value

theorem less_int (m n : ℤ) : (int m).less (int n) = .ok (decide (m < n)) := by
  have hless : (int m).less (int n) = .ok ((Number.int m).less (.int n)) := rfl
  rw [hless, Number.less_int]

/-- Whether a value is a certain whole number, and no truth value. -/
def IsWhole (v : Value) (i : ℤ) : Prop := v.index? = some i ∧ ∀ b, v ≠ .flag b

theorem isWhole_toValue (n : Numeral) : n.toValue.IsWhole n.toInt := by
  refine ⟨index?_toValue n, fun b => ?_⟩
  cases n <;> exact Value.noConfusion

theorem IsWhole.unique {v : Value} {i j : ℤ} (hi : v.IsWhole i) (hj : v.IsWhole j) : j = i :=
  Option.some.inj (hj.1.symm.trans hi.1)

variable {what : String} {i : ℤ} {size : ℕ}

theorem IsWhole.asWhole_eq {v : Value} (h : v.IsWhole i) : v.asWhole what = .ok i := by
  obtain ⟨hi, hflag⟩ := h
  rw [asWhole.eq_def, hi]
  split
  · exact absurd rfl (hflag _)
  · rfl

theorem placeIn_of_isWhole {v : Value} (h : v.IsWhole i) :
    v.placeIn what size = placeIn what (.int i) size := by
  rw [placeIn, placeIn, checkIndex, checkIndex, h.asWhole_eq]
  rfl

/-- A whole number that is no place is refused with the number and the size. -/
theorem placeIn_int_of_out_of_range (h : i < 0 ∨ size ≤ i) :
    placeIn what (.int i) size = .error (.indexRange what i (.int size)) := by
  have hnumber : (Value.int size).asNumber = .ok (.int size) := rfl
  have hwhole : (Value.int i).asWhole (what ++ " index") = .ok i := rfl
  rw [placeIn, map_eq_error, checkIndex, hwhole, ok_bind, refuse_eq_error]
  by_cases hneg : i < 0
  · exact .inl ⟨hneg, rfl⟩
  · have hless : (Number.int i).less (.int size) = false := by
      rw [Number.less_int, decide_eq_false_iff_not]
      omega
    refine .inr ⟨hneg, ?_⟩
    rw [hnumber, ok_bind, hless]
    rfl

theorem placeIn_int_eq_ok {place : ℕ} :
    placeIn what (.int i) size = .ok place ↔ i = place ∧ place < size := by
  simp only [placeIn, map_eq_ok, checkIndex, asWhole, index?, ok_bind, refuse_eq_ok, asNumber,
    number?, Option.map_some, Number.less_int]
  by_cases h : i < size
  · simp only [h, decide_true, if_true, pure_eq_ok]
    constructor
    · rintro ⟨_, ⟨hi, rfl⟩, rfl⟩
      omega
    · rintro ⟨rfl, -⟩
      exact ⟨place, ⟨by omega, rfl⟩, rfl⟩
  · simp only [h, decide_false, Bool.false_eq_true, if_false, throw, throwThe,
      MonadExceptOf.throw, reduceCtorEq, and_false, false_and, exists_false, false_iff, not_and,
      not_lt]
    omega

theorem placeIn_natCast {place : ℕ} (h : place < size) :
    placeIn what (.int place) size = .ok place :=
  placeIn_int_eq_ok.mpr ⟨rfl, h⟩

theorem lt_of_placeIn {v : Value} {place : ℕ} (h : v.placeIn what size = .ok place) :
    place < size := by
  simp only [placeIn, map_eq_ok, checkIndex, bind_eq_ok, refuse_eq_ok] at h
  obtain ⟨i, ⟨j, -, hneg, m, hm, hi⟩, rfl⟩ := h
  obtain rfl : Number.int size = m := Except.ok.inj hm
  rw [Number.less_int] at hi
  by_cases hlt : j < size
  · rw [decide_eq_true hlt, if_pos rfl, pure_eq_ok] at hi
    omega
  · rw [decide_eq_false hlt] at hi
    cases hi

end Value

end LoopTiling
