import Mathlib.Data.Nat.Choose.Sum
import Mathlib.NumberTheory.ArithmeticFunction.Zeta
import LoopTiling.Proofs.FactorTable.Values
import LoopTiling.Proofs.PrimeFactors

/-!
# The number of ordered products

The ordered products of `count` factors that make a number are counted by the power `count` of the
arithmetic function that is one everywhere: a first factor is a divisor, and the others make its
cofactor. The power is multiplicative, and at `p ^ e` it is the number of ways to hand out `e` equal
primes to the factors. So a table has as many rows as a product of binomial coefficients says, one for
each prime of what the pins leave of the bound.
-/
namespace LoopTiling

open ArithmeticFunction

theorem Divisor.toFinset_divisors {n : ℕ} (hn : 0 < n) : (divisors n).toFinset = n.divisors := by
  ext d
  rw [List.mem_toFinset, mem_divisors hn, Nat.mem_divisors, and_iff_left hn.ne']

theorem length_orderedProducts {residual : ℕ} (hr : 0 < residual) (count : ℕ) :
    (orderedProducts residual count).length = (zeta ^ count) residual := by
  induction residual, count using orderedProducts.induct with
  | case1 => rfl
  | case2 residual hne => rw [orderedProducts, if_neg hne, pow_zero, one_apply_ne hne, List.length_nil]
  | case3 residual => rw [orderedProducts, pow_one, zeta_apply_ne hr.ne', List.length_singleton]
  | case4 residual count ih =>
    have hnodup : (Divisor.divisors residual).Nodup := (Divisor.divisors_sorted hr).imp Nat.ne_of_lt
    have hrest : ∀ d ∈ residual.divisors, (orderedProducts (residual / d) (count + 1)).length =
        (zeta ^ (count + 1)) (residual / d) := by
      intro d hd
      have hdvd : d ∣ residual := Nat.dvd_of_mem_divisors hd
      exact ih d (Nat.div_pos (Nat.le_of_dvd hr hdvd) (Nat.pos_of_dvd_of_pos hdvd hr))
    calc (orderedProducts residual (count + 2)).length
        = ∑ d ∈ residual.divisors, (orderedProducts (residual / d) (count + 1)).length := by
          rw [← Divisor.toFinset_divisors hr, List.sum_toFinset _ hnodup, orderedProducts,
            List.length_flatMap]
          simp only [List.length_map]
      _ = ∑ d ∈ residual.divisors, (zeta ^ (count + 1)) (residual / d) :=
          Finset.sum_congr rfl hrest
      _ = ∑ d ∈ residual.divisors, (zeta ^ (count + 1)) d := Nat.sum_div_divisors residual _
      _ = (zeta ^ (count + 2)) residual := by rw [pow_succ' zeta (count + 1), zeta_mul_apply]

/-- Equal primes are handed out to the factors in as many ways as multisets are chosen. -/
theorem zeta_pow_prime_pow {p : ℕ} (hp : p.Prime) (count e : ℕ) :
    (zeta ^ count) (p ^ e) = count.multichoose e := by
  induction count generalizing e with
  | zero =>
    cases e with
    | zero => rw [pow_zero, pow_zero, one_one, Nat.multichoose_zero_right]
    | succ e =>
      have hne : p ^ (e + 1) ≠ 1 := (Nat.one_lt_pow e.succ_ne_zero hp.one_lt).ne'
      rw [pow_zero, one_apply_ne hne, Nat.multichoose_zero_succ]
  | succ count ih =>
    rw [pow_succ', zeta_mul_apply, Nat.sum_divisors_prime_pow hp]
    simp only [ih]
    rw [Nat.sum_range_multichoose, Nat.multichoose_eq]
    have hsum : count + 1 + e - 1 = e + count := by omega
    rw [hsum, Nat.choose_symm_add]

theorem zeta_pow_eq_prod {n : ℕ} (hn : 0 < n) (count : ℕ) :
    (zeta ^ count) n = ∏ p ∈ n.primeFactors, count.multichoose (n.factorization p) := by
  rw [isMultiplicative_zeta.pow.multiplicative_factorization _ hn.ne', Finsupp.prod,
    Nat.support_factorization]
  refine Finset.prod_congr rfl fun p hp => ?_
  exact zeta_pow_prime_pow (Nat.prime_of_mem_primeFactors hp) count _

/-- The number of ways to hand out primes, given with repetition, to a number of factors. -/
def waysToShare (primes : List ℕ) (count : ℕ) : ℕ :=
  if count = 0 then 1
  else (primes.dedup.map fun p => (primes.count p + count - 1).choose (count - 1)).prod

theorem waysToShare_primeFactors {n count : ℕ} (hn : 0 < n) (hc : 0 < count) :
    waysToShare (Divisor.primeFactors n) count = (zeta ^ count) n := by
  have hset : (Divisor.primeFactors n).dedup.toFinset = n.primeFactors := by
    ext p
    rw [Divisor.primeFactors_eq, List.mem_toFinset, List.mem_dedup,
      Nat.mem_primeFactors_iff_mem_primeFactorsList]
  have hterm (p : ℕ) : ((Divisor.primeFactors n).count p + count - 1).choose (count - 1) =
      count.multichoose (n.factorization p) := by
    rw [Divisor.primeFactors_eq, Nat.primeFactorsList_count_eq, Nat.multichoose_eq]
    have hsum : n.factorization p + count - 1 = n.factorization p + (count - 1) := by omega
    have hsum' : count + n.factorization p - 1 = n.factorization p + (count - 1) := by omega
    rw [hsum, hsum', Nat.choose_symm_add]
  rw [waysToShare, if_neg hc.ne', zeta_pow_eq_prod hn, ← hset, List.prod_toFinset _ (List.nodup_dedup _)]
  simp only [hterm]

namespace FactorTable

/-- What the pins leave of the bound. -/
def residual (t : FactorTable) : ℕ := t.bound.toInt.toNat / pinProduct t.pins

/-- The levels at which nothing is pinned. -/
def freeLevels (t : FactorTable) : List ℕ :=
  (List.range t.levelCount.toInt.toNat).filter fun level => (t.pins.lookup level).isNone

theorem count_slots_eq_length_freeLevels (t : FactorTable) :
    (slots t.levelCount.toInt.toNat t.pins).count none = t.freeLevels.length := by
  rw [slots, List.count, List.countP_map, List.countP_eq_length_filter, freeLevels]
  congr 2
  funext level
  rw [Function.comp_apply]
  cases t.pins.lookup level <;> rfl

/-- The size of a table counts how the primes of the residual are shared among the free levels. -/
theorem Sound.size_eq {t : FactorTable} (h : t.Sound) :
    t.size = waysToShare (Divisor.primeFactors t.residual) t.freeLevels.length := by
  have hb : 0 < t.bound.toInt.toNat := Int.lt_toNat.mpr h.bound_pos
  have hpos : 0 < t.residual := residual_pos hb h.pinsFit.pos h.product_dvd
  have hlength : t.size = (orderedProducts t.residual t.freeLevels.length).length := by
    rw [size, h.rows, tabulate, List.length_map, count_slots_eq_length_freeLevels, residual]
  rw [hlength]
  cases hfree : t.freeLevels.length with
  | zero =>
    -- Without a free level the pins make the bound, and they are the only row.
    have hcount := count_slots h.pinsFit
    rw [count_slots_eq_length_freeLevels, hfree, Nat.zero_add] at hcount
    have hone : t.residual = 1 := by rw [residual, h.product_eq hcount, Nat.div_self hb]
    rw [hone]
    rfl
  | succ k => rw [length_orderedProducts hpos, waysToShare_primeFactors hpos k.succ_pos]

end FactorTable

end LoopTiling
