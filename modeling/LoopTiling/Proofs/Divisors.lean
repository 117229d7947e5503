import Mathlib.Algebra.Order.Group.Nat
import Mathlib.Data.List.Range
import LoopTiling.Divisor

/-!
# The divisor search finds every divisor once

The candidates up to the root that divide are the lower divisors. The search returns them in front of
the cofactors of those below the root, in opposite order, so that the list as a whole is strictly
ascending and holds exactly the divisors.
-/
namespace LoopTiling.Divisor

/-- The divisors up to the root among `count` candidates from `i` on. -/
def lowerDivisors (n i count : ℕ) : List ℕ :=
  (List.range' i count).filter fun d => d * d ≤ n ∧ n % d = 0

/-- The cofactors of the divisors below the root, the largest first. -/
def cofactors (n : ℕ) (lower : List ℕ) : List ℕ :=
  (lower.filter fun d => d * d ≠ n).map (n / ·)

theorem mem_lowerDivisors {n i count d : ℕ} :
    d ∈ lowerDivisors n i count ↔ (i ≤ d ∧ d < i + count) ∧ d * d ≤ n ∧ d ∣ n := by
  simp only [lowerDivisors, List.mem_filter, List.mem_range'_1, decide_eq_true_eq,
    Nat.dvd_iff_mod_eq_zero]

theorem lowerDivisors_sorted (n i count : ℕ) : (lowerDivisors n i count).Pairwise (· < ·) :=
  List.Pairwise.filter _ List.pairwise_lt_range'

theorem lowerDivisors_succ (n i count : ℕ) :
    lowerDivisors n i (count + 1) =
      if i * i ≤ n ∧ n % i = 0 then i :: lowerDivisors n (i + 1) count
      else lowerDivisors n (i + 1) count := by
  simp only [lowerDivisors, List.range'_succ, List.filter_cons, decide_eq_true_eq]

/-- Beyond the root there are no lower divisors. -/
theorem lowerDivisors_eq_nil {n i count : ℕ} (h : ¬ i * i ≤ n) : lowerDivisors n i count = [] := by
  apply List.eq_nil_iff_forall_not_mem.mpr
  intro d hd
  obtain ⟨⟨hid, _⟩, hdn, _⟩ := mem_lowerDivisors.mp hd
  exact h ((Nat.mul_le_mul hid hid).trans hdn)

theorem divisorsFrom_eq (n fuel i : ℕ) (small large : List ℕ) :
    divisorsFrom n fuel i small large =
      (small.reverse ++ lowerDivisors n i fuel,
        (cofactors n (lowerDivisors n i fuel)).reverse ++ large) := by
  induction fuel generalizing i small large with
  | zero => simp [divisorsFrom, lowerDivisors, cofactors]
  | succ fuel ih =>
    rw [divisorsFrom, lowerDivisors_succ]
    by_cases hroot : i * i ≤ n
    · by_cases hdvd : n % i = 0
      · have hstep : i * i ≤ n ∧ n % i = 0 := ⟨hroot, hdvd⟩
        simp only [if_pos hroot, if_pos hdvd, if_pos hstep, ih]
        by_cases hsq : i * i = n
        · simp [hsq, cofactors]
        · simp [hsq, cofactors]
      · have hstep : ¬ (i * i ≤ n ∧ n % i = 0) := fun h => hdvd h.2
        simp only [if_pos hroot, if_neg hdvd, if_neg hstep, ih]
    · have hnil : lowerDivisors n (i + 1) fuel = [] :=
        lowerDivisors_eq_nil fun h => hroot ((Nat.mul_le_mul i.le_succ i.le_succ).trans h)
      have hstep : ¬ (i * i ≤ n ∧ n % i = 0) := fun h => hroot h.1
      simp [if_neg hroot, if_neg hstep, hnil, cofactors]

theorem divisors_eq (n : ℕ) :
    divisors n = lowerDivisors n 1 n ++ (cofactors n (lowerDivisors n 1 n)).reverse := by
  simp [divisors, divisorsFrom_eq]

theorem mem_lowerDivisors_one {n d : ℕ} (hn : 0 < n) :
    d ∈ lowerDivisors n 1 n ↔ d * d ≤ n ∧ d ∣ n := by
  rw [mem_lowerDivisors]
  constructor
  · exact fun h => h.2
  · intro h
    have hpos : 0 < d := Nat.pos_of_dvd_of_pos h.2 hn
    have hle : d ≤ n := Nat.le_of_dvd hn h.2
    exact ⟨⟨hpos, by omega⟩, h⟩

theorem mem_cofactors {n x : ℕ} (hn : 0 < n) :
    x ∈ cofactors n (lowerDivisors n 1 n) ↔ n < x * x ∧ x ∣ n := by
  simp only [cofactors, List.mem_map, List.mem_filter, mem_lowerDivisors_one hn, decide_eq_true_eq]
  constructor
  · rintro ⟨d, ⟨⟨hle, hdvd⟩, hne⟩, rfl⟩
    have hmul : d * (n / d) = n := Nat.mul_div_cancel' hdvd
    have hlt : d < n / d := Nat.lt_of_mul_lt_mul_left (a := d) (by omega)
    have hpos : 0 < n / d := Nat.zero_lt_of_lt hlt
    refine ⟨?_, Nat.div_dvd_of_dvd hdvd⟩
    calc n = d * (n / d) := hmul.symm
      _ < n / d * (n / d) := Nat.mul_lt_mul_of_pos_right hlt hpos
  · rintro ⟨hlt, hdvd⟩
    have hmul : n / x * x = n := Nat.div_mul_cancel hdvd
    have hbelow : n / x < x := Nat.lt_of_mul_lt_mul_right (a := x) (by omega)
    have hpos : 0 < n / x := Nat.div_pos (Nat.le_of_dvd hn hdvd) (Nat.zero_lt_of_lt hbelow)
    have hsq : n / x * (n / x) < n := by
      calc n / x * (n / x) < n / x * x := Nat.mul_lt_mul_of_pos_left hbelow hpos
        _ = n := hmul
    exact ⟨n / x, ⟨⟨hsq.le, Nat.div_dvd_of_dvd hdvd⟩, hsq.ne⟩, Nat.div_div_self hdvd hn.ne'⟩

theorem mem_divisors {n d : ℕ} (hn : 0 < n) : d ∈ divisors n ↔ d ∣ n := by
  rw [divisors_eq, List.mem_append, List.mem_reverse, mem_lowerDivisors_one hn, mem_cofactors hn]
  constructor
  · exact fun h => h.elim (·.2) (·.2)
  · intro h
    by_cases hle : d * d ≤ n
    · exact .inl ⟨hle, h⟩
    · exact .inr ⟨by omega, h⟩

theorem cofactors_sorted {n : ℕ} (hn : 0 < n) :
    (cofactors n (lowerDivisors n 1 n)).Pairwise (· > ·) := by
  apply List.pairwise_map.mpr
  refine ((lowerDivisors_sorted n 1 n).filter _).imp_of_mem fun {a b} ha hb hab => ?_
  have hda : a ∣ n := ((mem_lowerDivisors_one hn).mp (List.mem_of_mem_filter ha)).2
  have hdb : b ∣ n := ((mem_lowerDivisors_one hn).mp (List.mem_of_mem_filter hb)).2
  have hpos : 0 < n / b := Nat.div_pos (Nat.le_of_dvd hn hdb) (Nat.pos_of_dvd_of_pos hdb hn)
  apply Nat.lt_of_mul_lt_mul_left (a := a)
  calc a * (n / b) < b * (n / b) := Nat.mul_lt_mul_of_pos_right hab hpos
    _ = n := Nat.mul_div_cancel' hdb
    _ = a * (n / a) := (Nat.mul_div_cancel' hda).symm

/-- The divisors come in strictly ascending order, also across the root. -/
theorem divisors_sorted {n : ℕ} (hn : 0 < n) : (divisors n).Pairwise (· < ·) := by
  rw [divisors_eq]
  refine List.pairwise_append.mpr ⟨lowerDivisors_sorted n 1 n, ?_, ?_⟩
  · exact List.pairwise_reverse.mpr (cofactors_sorted hn)
  · intro d hd x hx
    have hlow := ((mem_lowerDivisors_one hn).mp hd).1
    have hhigh := ((mem_cofactors hn).mp (List.mem_reverse.mp hx)).1
    by_contra hle
    have hxd : x ≤ d := Nat.le_of_not_lt hle
    exact absurd ((Nat.mul_le_mul hxd hxd).trans hlow) (by omega)

end LoopTiling.Divisor
