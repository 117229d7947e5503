import Mathlib.Data.List.Nodup
import Mathlib.Data.List.Perm.Basic
import Mathlib.Data.Nat.Factorial.Basic
import LoopTiling.Proofs.Radix.Numbering
import LoopTiling.Radix.Factorial

/-!
# Ranks number the arrangements

Over items without repetition `unrank` is a numbering of the arrangements by the ranks below the
factorial of their number. The first item is a choice by a digit to the radix of all items, and the
arrangements that go with it are those of the items left.
-/
namespace LoopTiling.Radix

variable {α : Type}

theorem factorial_pos (n : ℕ) : 0 < factorial n := by
  induction n with
  | zero => exact Nat.one_pos
  | succ n ih => exact Nat.mul_pos n.succ_pos ih

theorem factorial_eq (n : ℕ) : factorial n = n.factorial := by
  induction n with
  | zero => rfl
  | succ n ih => rw [factorial, Nat.factorial_succ, ih]

theorem factorial_le {n m : ℕ} (h : n ≤ m) : factorial n ≤ factorial m := by
  induction h with
  | refl => exact Nat.le_refl _
  | @step m _ ih => exact ih.trans (Nat.le_mul_of_pos_left (factorial m) m.succ_pos)

theorem length_eraseIdx_of_length_eq {n k : ℕ} {items : List α} (hn : items.length = n + 1)
    (hk : k < items.length) : (items.eraseIdx k).length = n := by
  rw [List.length_eraseIdx_of_lt hk, hn, Nat.add_sub_cancel]

/-- The remainder of a rank picks the first item, the quotient arranges the others. -/
theorem unrankFrom_eq_cons {n : ℕ} {items : List α} (hn : items.length = n + 1) (rank : ℤ) :
    ∃ h : (rank % (n + 1 : ℕ)).toNat < items.length, unrankFrom (n + 1) items rank =
      items[(rank % (n + 1 : ℕ)).toNat] ::
        unrankFrom n (items.eraseIdx (rank % (n + 1 : ℕ)).toNat) (rank / (n + 1 : ℕ)) := by
  have hpos : (0 : ℤ) < (n + 1 : ℕ) := Int.natCast_pos.mpr n.succ_pos
  have hlt : (rank % (n + 1 : ℕ)).toNat < items.length := by
    have hmod := Int.emod_lt_of_pos rank hpos
    omega
  refine ⟨hlt, ?_⟩
  simp only [unrankFrom, hn, List.getElem?_eq_getElem hlt, Option.toList_some,
    List.singleton_append]

theorem unrankFrom_succ {n : ℕ} {items : List α} (hn : items.length = n + 1) (rank : ℕ) :
    ∃ h : rank % (n + 1) < items.length, unrankFrom (n + 1) items rank =
      items[rank % (n + 1)] :: unrankFrom n (items.eraseIdx (rank % (n + 1)))
        ((rank / (n + 1) : ℕ) : ℤ) := by
  have hstep := unrankFrom_eq_cons hn rank
  rwa [← Int.natCast_emod, Int.toNat_natCast, ← Int.natCast_ediv] at hstep

/-- Whatever its rank is, an arrangement has the items that are arranged. -/
theorem perm_unrank (items : List α) (rank : ℤ) : (unrank items rank).Perm items := by
  rw [unrank]
  generalize hn : items.length = n
  induction n generalizing items rank with
  | zero => rw [List.eq_nil_of_length_eq_zero hn, unrankFrom]
  | succ n ih =>
    obtain ⟨hlt, hstep⟩ := unrankFrom_eq_cons hn rank
    rw [hstep]
    exact ((ih _ _ (length_eraseIdx_of_length_eq hn hlt)).cons _).trans (List.getElem_cons_eraseIdx_perm hlt)

theorem unrank_add_mul (items : List α) (rank t : ℤ) :
    unrank items (rank + factorial items.length * t) = unrank items rank := by
  rw [unrank, unrank]
  generalize hn : items.length = n
  induction n generalizing items rank with
  | zero => rfl
  | succ n ih =>
    have hpos : (0 : ℤ) < (n + 1 : ℕ) := Int.natCast_pos.mpr n.succ_pos
    have hsplit : rank + factorial (n + 1) * t = rank + (n + 1 : ℕ) * (factorial n * t) := by
      rw [factorial, Int.natCast_mul, Int.mul_assoc]
    obtain ⟨hlt, hstep⟩ := unrankFrom_eq_cons hn rank
    obtain ⟨_, hstep'⟩ := unrankFrom_eq_cons hn (rank + factorial (n + 1) * t)
    have hrest := length_eraseIdx_of_length_eq hn hlt
    rw [hstep, hstep']
    simp only [hsplit, Int.add_mul_emod_self_left, Int.add_mul_ediv_left _ _ hpos.ne', ih _ _ hrest]

/-- Ranks count modulo the number of arrangements. -/
theorem unrank_emod (items : List α) (rank : ℤ) :
    unrank items (rank % factorial items.length) = unrank items rank := by
  rw [Int.emod_def, Int.sub_eq_add_neg, ← Int.mul_neg, unrank_add_mul]

/-- The first rank leaves the items as they are. -/
theorem unrank_zero (items : List α) : unrank items 0 = items := by
  rw [unrank]
  generalize hn : items.length = n
  induction n generalizing items with
  | zero => rw [List.eq_nil_of_length_eq_zero hn, unrankFrom]
  | succ n ih =>
    obtain ⟨x, rest, rfl⟩ := List.exists_cons_of_length_eq_add_one hn
    obtain ⟨_, hstep⟩ := unrankFrom_succ hn 0
    have hzero : ((0 : ℕ) : ℤ) = 0 := rfl
    simp only [Nat.zero_mod, Nat.zero_div, List.getElem_cons_zero, List.eraseIdx_zero,
      List.tail_cons, hzero] at hstep
    rw [hstep, ih rest (Nat.succ_injective hn)]

/-- An arrangement is an item in front of an arrangement of the others. -/
theorem perm_iff_exists_eraseIdx {items order : List α} (hne : items ≠ []) :
    order.Perm items ↔ ∃ (k : ℕ) (hk : k < items.length) (rest : List α),
      rest.Perm (items.eraseIdx k) ∧ order = items[k] :: rest := by
  constructor
  · intro h
    cases order with
    | nil => exact absurd h.symm.eq_nil hne
    | cons a rest =>
      obtain ⟨k, hk, rfl⟩ := List.getElem_of_mem (h.subset List.mem_cons_self)
      refine ⟨k, hk, rest, ?_, rfl⟩
      exact List.Perm.cons_inv (h.trans (List.getElem_cons_eraseIdx_perm hk).symm)
  · rintro ⟨k, hk, rest, hrest, rfl⟩
    exact (hrest.cons _).trans (List.getElem_cons_eraseIdx_perm hk)

theorem bijOn_unrankFrom {n : ℕ} {items : List α} (hn : items.length = n) (hd : items.Nodup) :
    Set.BijOn (fun rank : ℕ => unrankFrom n items rank) (Set.Iio (factorial n))
      {order | order.Perm items} := by
  induction n generalizing items with
  | zero =>
    have hnil : items = [] := List.eq_nil_of_length_eq_zero hn
    have hset : {order : List α | order.Perm items} = {[]} := by
      ext order
      simp [hnil]
    exact bijOn_single rfl hset
  | succ n ih =>
    have hpair : Set.BijOn
        (fun rank : ℕ => (rank % (n + 1), unrankFrom n (items.eraseIdx (rank % (n + 1)))
          ((rank / (n + 1) : ℕ) : ℤ))) (Set.Iio (factorial (n + 1)))
        {p : ℕ × List α | p.1 < n + 1 ∧ p.2.Perm (items.eraseIdx p.1)} := by
      refine bijOn_divMod (g := fun k rank => unrankFrom n (items.eraseIdx k) (rank : ℤ))
        (T := fun k => {order | order.Perm (items.eraseIdx k)}) fun k hk => ?_
      exact ih (length_eraseIdx_of_length_eq hn (hn ▸ hk)) (hd.sublist (List.eraseIdx_sublist items k))
    -- The lookup is total, but ranks below the factorial meet only places in range.
    have hplace : Set.BijOn (fun p : ℕ × List α => items[p.1]?.toList ++ p.2)
        {p : ℕ × List α | p.1 < n + 1 ∧ p.2.Perm (items.eraseIdx p.1)}
        {order | order.Perm items} := by
      have hne : items ≠ [] := List.ne_nil_of_length_eq_add_one hn
      have hget {k : ℕ} (hk : k < n + 1) : k < items.length := hn ▸ hk
      refine ⟨?_, ?_, ?_⟩
      · rintro ⟨k, rest⟩ ⟨hk, hrest⟩
        simp only [Set.mem_ofPred_eq, List.getElem?_eq_getElem (hget hk), Option.toList_some,
          List.singleton_append]
        exact (perm_iff_exists_eraseIdx hne).mpr ⟨k, hget hk, rest, hrest, rfl⟩
      · rintro ⟨k, rest⟩ ⟨hk, _⟩ ⟨k', rest'⟩ ⟨hk', _⟩ he
        simp only [List.getElem?_eq_getElem (hget hk), List.getElem?_eq_getElem (hget hk'),
          Option.toList_some, List.singleton_append, List.cons.injEq] at he
        exact Prod.ext ((List.Nodup.getElem_inj_iff hd).mp he.1) he.2
      · intro order horder
        obtain ⟨k, hk, rest, hrest, rfl⟩ := (perm_iff_exists_eraseIdx hne).mp horder
        refine ⟨(k, rest), ⟨hn ▸ hk, hrest⟩, ?_⟩
        simp only [List.getElem?_eq_getElem hk, Option.toList_some, List.singleton_append]
    apply (hplace.comp hpair).congr
    intro rank _
    obtain ⟨hlt, hstep⟩ := unrankFrom_succ hn rank
    simp only [Function.comp_apply, hstep, List.getElem?_eq_getElem hlt, Option.toList_some,
      List.singleton_append]

/-- Every arrangement of distinct items has exactly one rank below the factorial. -/
theorem bijOn_unrank {items : List α} (hd : items.Nodup) :
    Set.BijOn (fun rank : ℕ => unrank items rank) (Set.Iio (factorial items.length))
      {order | order.Perm items} :=
  bijOn_unrankFrom rfl hd

end LoopTiling.Radix
