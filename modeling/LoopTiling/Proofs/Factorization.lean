import Mathlib.Tactic.NormNum.Prime
import LoopTiling.Proofs.Divisors
import LoopTiling.Proofs.Radix.Encoding
import LoopTiling.Proofs.TrialDivision

/-!
# Divisors and prime factors of whole numbers

Whatever form a whole number has, the searches in it stop, and what they return are the divisors in strictly
ascending order and the prime factorization in ascending order. The numbers that a search divides by are
integers; a cofactor, and what is left in the end, have the form of the number that was given.
-/
namespace LoopTiling.Divisor

section Numbers

variable {x : Number} {n d : ℕ}

theorem equal_zero_of_isWhole (h : x.IsWhole n) : x.equal (.int 0) = decide (n = 0) := by
  have hcompare : (compare (n : ℤ) 0 == .eq) = decide (n = 0) := by
    rw [Bool.eq_iff_iff, beq_iff_eq, compare_eq_iff_eq, decide_eq_true_eq, Int.natCast_eq_zero]
  rcases h with rfl | ⟨w, rfl, hw⟩
  · exact hcompare
  · rw [Number.equal, Number.compare?, hw]
    exact hcompare

theorem one_less_of_isWhole (h : x.IsWhole n) : (Number.int 1).less x = decide (1 < n) := by
  have hless : (Number.int 1).less (.int n) = decide (1 < n) := by
    rw [Number.less_int]
    exact decide_eq_decide.mpr Nat.one_lt_cast
  rcases h with rfl | ⟨w, rfl, hw⟩
  · exact hless
  · rw [← hless, ← hw]
    rfl

theorem wholeOf?_of_isWhole (h : x.IsWhole n) : wholeOf? x = some (n : ℤ) := by
  rcases h with rfl | ⟨w, rfl, hw⟩
  · rfl
  · exact congrArg some hw

/-- A smaller number in the form of a number that is a word fits a word too. -/
theorem isWhole_inFormOf (h : x.IsWhole n) (hd : d ≤ n) : (inFormOf d x).IsWhole d := by
  rcases h with rfl | ⟨w, rfl, hw⟩
  · exact .inl rfl
  · have hlt := w.toInt_lt
    refine .inr ⟨_, rfl, ?_⟩
    exact Int64.toInt_ofNat_of_lt (by omega)

end Numbers

/-- The numbers that are returned for what a search in a number `x` has found. -/
def DivisorSearch.numbers (x : Number) (s : DivisorSearch) : List Number :=
  s.small.reverse.map Number.ofNat ++ s.large.map fun d => inFormOf d x

theorem forall₂_isWhole_numbers {x : Number} {n : ℕ} {s : DivisorSearch} (hx : x.IsWhole n)
    (hs : ∀ d ∈ s.large, d ≤ n) :
    List.Forall₂ (fun (x : Number) (d : ℕ) => x.IsWhole d) (s.numbers x) s.listed := by
  apply List.rel_append
  · rw [List.forall₂_map_left_iff, List.forall₂_same]
    exact fun d _ => .inl rfl
  · rw [List.forall₂_map_left_iff, List.forall₂_same]
    exact fun d hd => isWhole_inFormOf hx (hs d hd)

theorem divisorsOf_eq {v withOne : Value} {x : Number} {n : ℕ} {s : DivisorSearch}
    (hv : v.number? = some x) (hx : x.IsWhole n) (hn : 0 < n)
    (hs : divisorsFrom n n 1 [] [] = (s.small.reverse, s.large)) (hne : s.numbers x ≠ []) :
    divisorsOf v withOne = .ok (if withOne.truthy then s.numbers x else (s.numbers x).tail) := by
  have hless : x.less (.int 0) = false := by
    rw [hx.less_int, decide_eq_false_iff_not]
    omega
  have hequal : x.equal (.int 0) = false := by
    rw [equal_zero_of_isWhole hx, decide_eq_false_iff_not]
    omega
  obtain ⟨first, rest, hnumbers⟩ := List.exists_cons_of_ne_nil hne
  rw [divisorsOf, Value.asNumber_of_number? hv, ok_bind, hless, hequal, wholeOf?_of_isWhole hx]
  simp only [Bool.or_self, Bool.false_eq_true, if_false, Option.getD_some, Int.toNat_natCast, hs]
  rw [DivisorSearch.numbers] at hnumbers ⊢
  cases withOne.truthy with
  | true => rfl
  | false => simp only [hnumbers, Bool.false_eq_true, if_false, List.tail_cons, pure, Except.pure]

/-- The divisors of a positive whole number: the loop stops, after one turn for each number up to the root,
with the list of all divisors in strictly ascending order; a root that is whole is listed once, and without
one the list begins at its second element. -/
theorem divisorsOf_ascending {v : Value} {n : ℕ} (hv : v.index? = some (n : ℤ)) (hn : 0 < n) :
    ∃ (t : DivisorSearch) (ds : List Number), StopsAfter (DivisorSearch.turn? n) n.sqrt .start t ∧
      (∀ withOne : Value, divisorsOf v withOne = .ok (if withOne.truthy then ds else ds.tail)) ∧
      List.Forall₂ (fun (x : Number) (d : ℕ) => x.IsWhole d) ds t.listed ∧
      t.listed.Pairwise (· < ·) ∧ (∀ d, d ∈ t.listed ↔ d ∣ n) ∧
      ∀ root, root * root = n → t.listed.count root = 1 := by
  obtain ⟨x, hx, hwhole⟩ := Value.exists_number? hv
  have hfuel : n < DivisorSearch.start.candidate + n := Nat.lt_add_of_pos_left Nat.one_pos
  obtain ⟨t, hstops, heq⟩ := DivisorSearch.divisorsFrom_stopsAfter hfuel
  have hfound : divisorsFrom n n 1 [] [] = (t.small.reverse, t.large) := heq
  have hlisted : divisors n = t.listed := by
    rw [divisors, hfound]
    rfl
  have hsorted : t.listed.Pairwise (· < ·) := hlisted ▸ divisors_sorted hn
  have hmem (d : ℕ) : d ∈ t.listed ↔ d ∣ n := hlisted ▸ mem_divisors hn
  have hforms := forall₂_isWhole_numbers hwhole fun d hd =>
    Nat.le_of_dvd hn ((hmem d).mp (List.mem_append_right _ hd))
  have hne : t.numbers x ≠ [] := by
    intro hnil
    have hone : 1 ∈ t.listed := (hmem 1).mpr (one_dvd n)
    rw [hnil, List.forall₂_nil_left_iff] at hforms
    rw [hforms] at hone
    cases hone
  refine ⟨t, t.numbers x, hstops, fun withOne => divisorsOf_eq hx hwhole hn hfound hne, hforms,
    hsorted, hmem, fun root hroot => ?_⟩
  exact List.count_eq_one_of_mem (hsorted.imp Nat.ne_of_lt) ((hmem root).mpr ⟨root, hroot.symm⟩)

/-- Of 36 the root is listed once, in the middle. -/
theorem divisorsOf_ascending_square : (Value.int 36).index? = some ((36 : ℕ) : ℤ) ∧ 0 < 36 ∧
    ∃ (t : DivisorSearch) (ds : List Number), StopsAfter (DivisorSearch.turn? 36) 6 .start t ∧
      divisorsOf (.int 36) (.flag true) = .ok ds ∧ divisorsOf (.int 36) (.flag false) = .ok ds.tail ∧
      t.listed = [1, 2, 3, 4, 6, 9, 12, 18, 36] ∧ t.listed.count 6 = 1 := by
  obtain ⟨t, ds, hstops, hds, -, -, -, hroot⟩ :=
    divisorsOf_ascending (v := .int 36) (n := 36) rfl (by decide)
  have hsqrt : Nat.sqrt 36 = 6 := Nat.sqrt_eq 6
  rw [hsqrt] at hstops
  obtain rfl := Option.some.inj (hstops.reached.symm.trans rfl)
  exact ⟨rfl, by decide, _, ds, hstops, hds (.flag true), hds (.flag false), rfl, hroot 6 rfl⟩

/-- The values that are returned for what a search in a value, which is a number `x`, has found and
left. -/
def PrimeSearch.values (v : Value) (x : Number) (s : PrimeSearch) : List Value :=
  s.found.reverse.map (fun p : ℕ => .int p) ++
    if 1 < s.left then [if s.found.isEmpty then v else (inFormOf s.left x).toValue] else []

theorem listed_eq_primeFactorsList {n : ℕ} {s : PrimeSearch} (hn : 1 < n)
    (hs : primesFrom n n 2 [] = (s.found.reverse, s.left)) : s.listed = n.primeFactorsList := by
  obtain ⟨hfactors, hpos, hprime⟩ := primesFrom_eq hn
  rw [hs] at hfactors hpos hprime
  rw [← hfactors, PrimeSearch.listed]
  by_cases hleft : 1 < s.left
  · rw [if_pos hleft, Nat.primeFactorsList_prime (hprime hleft)]
  · have hone : s.left = 1 := by omega
    rw [if_neg hleft, hone, Nat.primeFactorsList_one]

/-- Where nothing has been found, what is left is the number that was given. -/
theorem forall₂_isWhole_values {v : Value} {x : Number} {n : ℕ} {s : PrimeSearch} (hv : v.IsWhole n)
    (hx : x.IsWhole n) (hle : ∀ p ∈ s.listed, p ≤ n) (hprod : s.listed.prod = n) :
    List.Forall₂ (fun (v : Value) (p : ℕ) => v.IsWhole p) (s.values v x) s.listed := by
  apply List.rel_append
  · rw [List.forall₂_map_left_iff, List.forall₂_same]
    exact fun p _ => Value.isWhole_toValue (.plain p)
  · by_cases hleft : 1 < s.left
    · rw [if_pos hleft, if_pos hleft, List.forall₂_cons]
      refine ⟨?_, .nil⟩
      have hleft_mem : s.left ∈ s.listed := by
        rw [PrimeSearch.listed, if_pos hleft]
        exact List.mem_append_right _ List.mem_cons_self
      by_cases hnone : s.found.isEmpty
      · rw [PrimeSearch.listed, if_pos hleft, List.isEmpty_iff.mp hnone] at hprod
        have hwhole : s.left = n := by simpa using hprod
        rwa [if_pos hnone, hwhole]
      · rw [if_neg hnone]
        exact (isWhole_inFormOf hx (hle _ hleft_mem)).toValue
    · rw [if_neg hleft, if_neg hleft]
      exact .nil

theorem primeFactorsOf_eq {v : Value} {x : Number} {n : ℕ} {s : PrimeSearch} (hv : v.number? = some x)
    (hx : x.IsWhole n) (hn : 1 < n) (hs : primesFrom n n 2 [] = (s.found.reverse, s.left)) :
    primeFactorsOf v = .ok (s.values v x) := by
  rw [primeFactorsOf, Value.asNumber_of_number? hv, ok_bind, one_less_of_isWhole hx,
    wholeOf?_of_isWhole hx, PrimeSearch.values]
  simp only [hn, decide_true, Bool.not_true, Bool.false_eq_true, if_false, Int.toNat_natCast, hs,
    List.isEmpty_reverse]
  by_cases hleft : 1 < s.left
  · rw [if_neg (Nat.not_le_of_lt hleft), if_pos hleft]
    rfl
  · rw [if_pos (Nat.le_of_not_lt hleft), if_neg hleft, List.append_nil]
    rfl

/-- The prime factors of a whole number above one: the loop stops, after at most as many turns as twice the
root and the logarithm, and what is found and what is left of the number make up its prime factorization,
in ascending order. -/
theorem primeFactorsOf_ascending {v : Value} {n : ℕ} (hv : v.index? = some (n : ℤ)) (hn : 2 ≤ n) :
    ∃ (k : ℕ) (t : PrimeSearch) (vs : List Value), k ≤ 2 * n.sqrt + Nat.log 2 n ∧
      StopsAfter PrimeSearch.turn? k (.start n) t ∧ primeFactorsOf v = .ok vs ∧
      List.Forall₂ (fun (v : Value) (p : ℕ) => v.IsWhole p) vs t.listed ∧
      t.listed.Pairwise (· ≤ ·) ∧ (∀ p ∈ t.listed, p.Prime) ∧ t.listed.prod = n ∧
      ∀ ps : List ℕ, ps.Pairwise (· ≤ ·) → (∀ p ∈ ps, p.Prime) → ps.prod = n → ps = t.listed := by
  obtain ⟨x, hx, hwhole⟩ := Value.exists_number? hv
  have hpos : 0 < n := Nat.zero_lt_of_lt hn
  obtain ⟨k, t, hstops, heq⟩ := PrimeSearch.primesFrom_stopsAfter (Nat.le_refl 2) hpos
    (Nat.le_add_left n 2) (isRough_two n)
  have hturns : k + t.remaining ≤ (PrimeSearch.start n).remaining :=
    hstops.add_measure_le (fun _ _ => PrimeSearch.isOpen_turn) ⟨Nat.le_refl 2, hpos⟩
  have hremaining : (PrimeSearch.start n).remaining = 2 * n.sqrt + Nat.log 2 n := rfl
  have hlisted := listed_eq_primeFactorsList hn heq
  have hprod := Nat.prod_primeFactorsList hpos.ne'
  have hsorted : n.primeFactorsList.Pairwise (· ≤ ·) := (Nat.primeFactorsList_sorted n).pairwise
  have hflag : ∀ b, v ≠ .flag b := by
    rintro b rfl
    have hb : (b.toNat : ℤ) = n := Option.some.inj hv
    have hle := b.toNat_le
    omega
  have hforms := forall₂_isWhole_values ⟨hv, hflag⟩ hwhole
    (hlisted ▸ fun p => Nat.le_of_mem_primeFactorsList) (hlisted ▸ hprod)
  refine ⟨k, t, t.values v x, by omega, hstops, primeFactorsOf_eq hx hwhole hn heq, ?_⟩
  rw [hlisted] at hforms ⊢
  refine ⟨hforms, hsorted, fun p => Nat.prime_of_mem_primeFactorsList, hprod, ?_⟩
  intro ps hps hprime hpsprod
  exact (Nat.primeFactorsList_unique hpsprod hprime).eq_of_pairwise
    (fun _ _ _ _ => Nat.le_antisymm) hps hsorted

/-- Of 388 two primes are divided out, and a prime is left. -/
theorem primeFactorsOf_ascending_leftover : (Value.int 388).index? = some ((388 : ℕ) : ℤ) ∧ 2 ≤ 388 ∧
    ∃ (k : ℕ) (t : PrimeSearch), StopsAfter PrimeSearch.turn? k (.start 388) t ∧
      primeFactorsOf (.int 388) = .ok [.int 2, .int 2, .int 97] ∧ t.listed = [2, 2, 97] := by
  obtain ⟨k, t, vs, -, hstops, hvs, -, -, -, -, hunique⟩ :=
    primeFactorsOf_ascending (v := .int 388) (n := 388) rfl (by decide)
  have hprimes : ∀ p ∈ [2, 2, 97], p.Prime := by norm_num
  have hlisted := hunique [2, 2, 97] (by decide) hprimes rfl
  exact ⟨rfl, by decide, k, t, hstops, rfl, hlisted.symm⟩

end LoopTiling.Divisor
