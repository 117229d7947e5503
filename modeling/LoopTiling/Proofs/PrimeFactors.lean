import Mathlib.Data.Nat.Factors
import LoopTiling.Divisor
import LoopTiling.Proofs.Index

/-!
# Trial division finds the prime factorization

While candidates are tried in ascending order, no prime below the candidate divides the number that is
left. So a candidate that divides it is its least prime factor, and a number that is left above one when
the candidates have passed its root is prime. What has been found so far followed by the prime
factors of what is left is at every step the prime factorization of the number given.
-/
namespace LoopTiling.Divisor

/-- Whether no prime below `d` divides `n`. -/
def IsRough (d n : ℕ) : Prop := ∀ p, p.Prime → p ∣ n → d ≤ p

variable {d n : ℕ}

theorem isRough_two (n : ℕ) : IsRough 2 n := fun _ hp _ => hp.two_le

theorem IsRough.of_dvd {m : ℕ} (h : IsRough d n) (hm : m ∣ n) : IsRough d m :=
  fun p hp hdvd => h p hp (hdvd.trans hm)

theorem IsRough.succ (h : IsRough d n) (hd : ¬ d ∣ n) : IsRough (d + 1) n := by
  intro p hp hdvd
  have hne : d ≠ p := fun he => hd (he ▸ hdvd)
  have hle := h p hp hdvd
  omega

theorem IsRough.minFac_eq (h : IsRough d n) (hd : 2 ≤ d) (hn : 0 < n) (hdvd : d ∣ n) :
    n.minFac = d := by
  have hle : d ≤ n := Nat.le_of_dvd hn hdvd
  have hprime : n.minFac.Prime := Nat.minFac_prime (by omega)
  exact Nat.le_antisymm (Nat.minFac_le_of_dvd hd hdvd) (h _ hprime n.minFac_dvd)

theorem IsRough.primeFactorsList_eq (h : IsRough d n) (hd : 2 ≤ d) (hn : 0 < n) (hdvd : d ∣ n) :
    n.primeFactorsList = d :: (n / d).primeFactorsList := by
  have hle : d ≤ n := Nat.le_of_dvd hn hdvd
  obtain ⟨m, rfl⟩ : ∃ m, n = m + 2 := ⟨n - 2, by omega⟩
  rw [Nat.primeFactorsList, h.minFac_eq hd hn hdvd]

/-- Past the root there is no room for a second factor. -/
theorem IsRough.prime_of_lt (h : IsRough d n) (hn : 1 < n) (hlt : n < d * d) : n.Prime := by
  by_contra hnot
  have hprime : n.minFac.Prime := Nat.minFac_prime (by omega)
  have hle : d ≤ n.minFac := h _ hprime n.minFac_dvd
  have hsq : n.minFac * n.minFac ≤ n := by
    rw [← sq]
    exact Nat.minFac_sq_le_self (by omega) hnot
  have hroot : d * d ≤ n := (Nat.mul_le_mul hle hle).trans hsq
  omega

/-- What a search has found, the last one first, and what it has left of a number. -/
structure Splits (n : ℕ) (before : List ℕ) (found : List ℕ) (left : ℕ) : Prop where
  pos : 0 < left
  dvd : left ∣ n
  factors : found.reverse ++ left.primeFactorsList = before.reverse ++ n.primeFactorsList

theorem divideOut_splits {fuel : ℕ} (hd : 2 ≤ d) (hn : 0 < n) (hfuel : n ≤ fuel) (h : IsRough d n)
    (before : List ℕ) :
    Splits n before (divideOut d fuel n before).1 (divideOut d fuel n before).2 ∧
      ¬ d ∣ (divideOut d fuel n before).2 := by
  induction fuel generalizing n before with
  | zero => omega
  | succ fuel ih =>
    rw [divideOut]
    by_cases hmod : n % d = 0
    · have hdvd : d ∣ n := Nat.dvd_of_mod_eq_zero hmod
      have hpos : 0 < n / d := Nat.div_pos (Nat.le_of_dvd hn hdvd) (by omega)
      have hlt : n / d < n := Nat.div_lt_self hn hd
      have hquot : n / d ∣ n := Nat.div_dvd_of_dvd hdvd
      obtain ⟨hsplit, hnot⟩ := ih hpos (by omega) (h.of_dvd hquot) (d :: before)
      rw [if_pos hmod]
      refine ⟨⟨hsplit.pos, hsplit.dvd.trans hquot, ?_⟩, hnot⟩
      rw [hsplit.factors, h.primeFactorsList_eq hd hn hdvd]
      simp
    · rw [if_neg hmod]
      exact ⟨⟨hn, Nat.dvd_refl n, rfl⟩, fun hdvd => hmod (Nat.mod_eq_zero_of_dvd hdvd)⟩

/-- The fuel reaches past the root: then what is left is one or prime. -/
theorem primesFrom_spec {fuel : ℕ} (hd : 2 ≤ d) (hn : 0 < n) (hfuel : n ≤ d + fuel)
    (h : IsRough d n) (before : List ℕ) :
    Splits n before (primesFrom fuel n d before).1.reverse (primesFrom fuel n d before).2 ∧
      (1 < (primesFrom fuel n d before).2 → (primesFrom fuel n d before).2.Prime) := by
  induction fuel generalizing n d before with
  | zero =>
    have hsq : d * 2 ≤ d * d := Nat.mul_le_mul_left d hd
    have hroot : n < d * d := by omega
    rw [primesFrom, List.reverse_reverse]
    exact ⟨⟨hn, Nat.dvd_refl n, rfl⟩, fun hone => h.prime_of_lt hone hroot⟩
  | succ fuel ih =>
    rw [primesFrom]
    by_cases hroot : d * d ≤ n
    · obtain ⟨hout, hnot⟩ := divideOut_splits hd hn (Nat.le_refl n) h before
      have hle : (divideOut d n n before).2 ≤ n := Nat.le_of_dvd hn hout.dvd
      obtain ⟨hsplit, hprime⟩ := ih (by omega) hout.pos (by omega)
        ((h.of_dvd hout.dvd).succ hnot) (divideOut d n n before).1
      rw [if_pos hroot]
      exact ⟨⟨hsplit.pos, hsplit.dvd.trans hout.dvd, hsplit.factors.trans hout.factors⟩, hprime⟩
    · rw [if_neg hroot, List.reverse_reverse]
      exact ⟨⟨hn, Nat.dvd_refl n, rfl⟩, fun hone => h.prime_of_lt hone (by omega)⟩

/-- The primes found and what is left of a number above one, in the order in which they are listed. -/
theorem primesFrom_eq (hn : 1 < n) :
    (primesFrom n n 2 []).1 ++ (primesFrom n n 2 []).2.primeFactorsList = n.primeFactorsList ∧
      0 < (primesFrom n n 2 []).2 ∧
      (1 < (primesFrom n n 2 []).2 → (primesFrom n n 2 []).2.Prime) := by
  have hfuel : n ≤ 2 + n := Nat.le_add_left n 2
  obtain ⟨hsplit, hprime⟩ :=
    primesFrom_spec (Nat.le_refl 2) (Nat.zero_lt_of_lt hn) hfuel (isRough_two n) []
  have hfactors := hsplit.factors
  rw [List.reverse_reverse] at hfactors
  exact ⟨hfactors, hsplit.pos, hprime⟩

/-- The search returns the prime factorization, also below two where it is empty. -/
theorem primeFactors_eq (n : ℕ) : primeFactors n = n.primeFactorsList := by
  rw [primeFactors]
  by_cases hn : n ≤ 1
  · rw [if_pos hn]
    rcases Nat.le_one_iff_eq_zero_or_eq_one.mp hn with rfl | rfl
    · exact Nat.primeFactorsList_zero.symm
    · exact Nat.primeFactorsList_one.symm
  · obtain ⟨hfactors, hpos, hprime⟩ := primesFrom_eq (Nat.lt_of_not_le hn)
    rw [if_neg hn, ← hfactors]
    by_cases hleft : 1 < (primesFrom n n 2 []).2
    · simp only [if_pos hleft, Nat.primeFactorsList_prime (hprime hleft)]
    · have hone : (primesFrom n n 2 []).2 = 1 := by omega
      simp only [hone, Nat.lt_irrefl, if_false, Nat.primeFactorsList_one, List.append_nil]

/-- The prime factors of a number given as a value are the same numbers. -/
theorem primeFactorsOf_natCast (n : ℕ) :
    primeFactorsOf (.int n) = .ok ((primeFactors n).map fun (p : ℕ) => .int p) := by
  have hnumber : (Value.int n).asNumber = .ok (.int n) := rfl
  have hless : (Number.int 1).less (.int n) = decide (1 < n) := by
    rw [Number.less_int]
    exact decide_eq_decide.mpr Nat.one_lt_cast
  rw [primeFactorsOf, hnumber, ok_bind, hless]
  by_cases hn : 1 < n
  · obtain ⟨hfactors, hpos, hprime⟩ := primesFrom_eq hn
    have hnot : ¬ n ≤ 1 := by omega
    simp only [hn, decide_true, Bool.not_true, Bool.false_eq_true, if_false, wholeOf?,
      Int.toNat_natCast, primeFactors, if_neg hnot]
    by_cases hleft : 1 < (primesFrom n n 2 []).2
    · -- Where nothing has been found, what is left is the number that was given.
      have hgiven : (if (primesFrom n n 2 []).1.isEmpty then Value.int n
          else (inFormOf (primesFrom n n 2 []).2 (.int n)).toValue) =
            .int (primesFrom n n 2 []).2 := by
        by_cases hempty : (primesFrom n n 2 []).1.isEmpty
        · rw [List.isEmpty_iff.mp hempty, Nat.primeFactorsList_prime (hprime hleft),
            List.nil_append] at hfactors
          have hprod := Nat.prod_primeFactorsList (Nat.ne_zero_of_lt hn)
          rw [← hfactors, List.prod_singleton] at hprod
          rw [if_pos hempty, hprod]
        · rw [if_neg hempty]
          rfl
      simp only [if_neg (Nat.not_le_of_lt hleft), if_pos hleft, hgiven, List.map_append,
        List.map_singleton, pure, Except.pure]
    · simp [hleft, Nat.le_of_not_lt hleft, pure, Except.pure]
  · simp [hn, primeFactors, Nat.le_of_not_lt hn, pure, Except.pure]

example : primeFactors 360 = [2, 2, 2, 3, 3, 5] := by decide

end LoopTiling.Divisor
