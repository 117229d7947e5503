import Mathlib.Algebra.BigOperators.Group.List.Basic
import Mathlib.Algebra.Order.BigOperators.Group.List
import LoopTiling.FactorTable
import LoopTiling.Proofs.Divisors

/-!
# Ordered products and slots

`orderedProducts` lists exactly the tuples of positive factors with a given product, in strictly
ascending lexicographic order. Filling the empty slots between fixed factors is a one-to-one
correspondence between tuples of free factors and the tuples that agree with the slots; it multiplies
the product by that of the fixed factors, and it keeps the order.
-/
namespace LoopTiling

theorem mem_orderedProducts {residual count : ℕ} (hr : 0 < residual) {fs : List ℕ} :
    fs ∈ orderedProducts residual count ↔
      fs.length = count ∧ (∀ f ∈ fs, 0 < f) ∧ fs.prod = residual := by
  induction residual, count using orderedProducts.induct generalizing fs with
  | case1 =>
    simp only [orderedProducts, if_true, List.mem_singleton, List.length_eq_zero_iff]
    exact ⟨fun h => by simp [h], fun h => h.1⟩
  | case2 residual hne =>
    simp only [orderedProducts, if_neg hne, List.not_mem_nil, false_iff, List.length_eq_zero_iff]
    rintro ⟨rfl, _, hprod⟩
    exact hne hprod.symm
  | case3 residual =>
    simp only [orderedProducts, List.mem_singleton]
    constructor
    · rintro rfl
      exact ⟨rfl, by simpa using hr, List.prod_singleton⟩
    · rintro ⟨hlen, _, hprod⟩
      obtain ⟨f, rfl⟩ := List.length_eq_one_iff.mp hlen
      rw [← hprod, List.prod_singleton]
  | case4 residual count ih =>
    simp only [orderedProducts, List.mem_flatMap, List.mem_map, Divisor.mem_divisors hr]
    constructor
    · rintro ⟨d, hdvd, rest, hrest, rfl⟩
      have hd : 0 < d := Nat.pos_of_dvd_of_pos hdvd hr
      have hquot : 0 < residual / d := Nat.div_pos (Nat.le_of_dvd hr hdvd) hd
      obtain ⟨hlen, hpos, hprod⟩ := (ih d hquot).mp hrest
      refine ⟨by rw [List.length_cons, hlen], List.forall_mem_cons.mpr ⟨hd, hpos⟩, ?_⟩
      rw [List.prod_cons, hprod, Nat.mul_div_cancel' hdvd]
    · rintro ⟨hlen, hpos, hprod⟩
      obtain ⟨d, rest, rfl⟩ := List.exists_cons_of_length_eq_add_one hlen
      rw [List.forall_mem_cons] at hpos
      rw [List.prod_cons] at hprod
      have hdvd : d ∣ residual := ⟨rest.prod, hprod.symm⟩
      have hquot : residual / d = rest.prod := by
        rw [← hprod, Nat.mul_div_cancel_left _ hpos.1]
      have hrest : 0 < residual / d := Nat.div_pos (Nat.le_of_dvd hr hdvd) hpos.1
      refine ⟨d, hdvd, rest, (ih d hrest).mpr ⟨?_, hpos.2, hquot.symm⟩, rfl⟩
      exact Nat.succ_injective hlen

theorem orderedProducts_sorted {residual count : ℕ} (hr : 0 < residual) :
    (orderedProducts residual count).Pairwise (· < ·) := by
  induction residual, count using orderedProducts.induct with
  | case1 => simp [orderedProducts]
  | case2 residual hne => simp [orderedProducts, hne]
  | case3 residual => exact List.pairwise_singleton _ _
  | case4 residual count ih =>
    rw [orderedProducts, List.pairwise_flatMap]
    constructor
    · intro d hd
      have hdvd : d ∣ residual := (Divisor.mem_divisors hr).mp hd
      have hquot : 0 < residual / d :=
        Nat.div_pos (Nat.le_of_dvd hr hdvd) (Nat.pos_of_dvd_of_pos hdvd hr)
      refine List.pairwise_map.mpr ((ih d hquot).imp fun h => ?_)
      exact List.cons_lt_cons_self.mpr h
    · refine (Divisor.divisors_sorted hr).imp fun {d e} hlt fs hfs gs hgs => ?_
      obtain ⟨_, _, rfl⟩ := List.mem_map.mp hfs
      obtain ⟨_, _, rfl⟩ := List.mem_map.mp hgs
      exact List.cons_lt_cons_iff.mpr (.inl hlt)

/-- Factors that agree with the slots: each slot that fixes a factor has it. -/
def Fills (slots : List (Option ℕ)) (fs : List ℕ) : Prop :=
  List.Forall₂ (fun slot f => ∀ g ∈ slot, g = f) slots fs

def fixedProduct (slots : List (Option ℕ)) : ℕ := (slots.map fun slot => slot.getD 1).prod

theorem fills_fillSlots {slots : List (Option ℕ)} {free : List ℕ} :
    Fills slots (fillSlots slots free) := by
  induction slots, free using fillSlots.induct with
  | case1 => exact .nil
  | case2 factor slots free ih => exact .cons (by simp) ih
  | case3 slots factor free ih => exact .cons (by simp) ih
  | case4 slots ih => exact .cons (by simp) ih

theorem prod_fillSlots {slots : List (Option ℕ)} {free : List ℕ}
    (hlen : free.length = slots.count none) :
    (fillSlots slots free).prod = fixedProduct slots * free.prod := by
  induction slots, free using fillSlots.induct with
  | case1 free =>
    obtain rfl := List.eq_nil_of_length_eq_zero hlen
    rfl
  | case2 factor slots free ih =>
    have htail : free.length = slots.count none := by simpa using hlen
    simp only [fillSlots, List.prod_cons, ih htail, fixedProduct, List.map_cons, Option.getD_some,
      mul_assoc]
  | case3 slots factor free ih =>
    have htail : free.length = slots.count none := by simpa using hlen
    simp only [fillSlots, List.prod_cons, ih htail, fixedProduct, List.map_cons, Option.getD_none,
      one_mul, mul_left_comm]
  | case4 slots ih => simp at hlen

theorem pos_of_mem_fillSlots {slots : List (Option ℕ)} {free : List ℕ}
    (hslots : ∀ g, some g ∈ slots → 0 < g) (hfree : ∀ f ∈ free, 0 < f) :
    ∀ f ∈ fillSlots slots free, 0 < f := by
  induction slots, free using fillSlots.induct with
  | case1 => simp [fillSlots]
  | case2 factor slots free ih =>
    have htail := ih (fun g hg => hslots g (List.mem_cons_of_mem _ hg)) hfree
    exact List.forall_mem_cons.mpr ⟨hslots factor List.mem_cons_self, htail⟩
  | case3 slots factor free ih =>
    rw [List.forall_mem_cons] at hfree
    have htail := ih (fun g hg => hslots g (List.mem_cons_of_mem _ hg)) hfree.2
    exact List.forall_mem_cons.mpr ⟨hfree.1, htail⟩
  | case4 slots ih =>
    have htail := ih (fun g hg => hslots g (List.mem_cons_of_mem _ hg)) hfree
    exact List.forall_mem_cons.mpr ⟨Nat.one_pos, htail⟩

theorem exists_fillSlots {slots : List (Option ℕ)} {fs : List ℕ} (h : Fills slots fs) :
    ∃ free, free.length = slots.count none ∧ (∀ f ∈ free, f ∈ fs) ∧ fillSlots slots free = fs := by
  induction h with
  | nil => exact ⟨[], rfl, by simp, rfl⟩
  | @cons slot f slots fs hslot _ ih =>
    obtain ⟨free, hlen, hsub, rfl⟩ := ih
    cases slot with
    | none =>
      refine ⟨f :: free, by simp [hlen], ?_, rfl⟩
      exact List.forall_mem_cons.mpr
        ⟨List.mem_cons_self, fun g hg => List.mem_cons_of_mem f (hsub g hg)⟩
    | some g =>
      obtain rfl := hslot g rfl
      exact ⟨free, by simp [hlen], fun f hf => List.mem_cons_of_mem g (hsub f hf), rfl⟩

theorem fillSlots_lt {slots : List (Option ℕ)} {free free' : List ℕ}
    (hlen : free.length = slots.count none) (hlen' : free'.length = slots.count none)
    (h : free < free') : fillSlots slots free < fillSlots slots free' := by
  induction slots generalizing free free' with
  | nil =>
    obtain rfl := List.eq_nil_of_length_eq_zero hlen
    obtain rfl := List.eq_nil_of_length_eq_zero hlen'
    exact absurd h (List.lt_irrefl _)
  | cons slot slots ih =>
    cases slot with
    | some factor =>
      have htail := ih (by simpa using hlen) (by simpa using hlen') h
      exact List.cons_lt_cons_self.mpr htail
    | none =>
      rw [List.count_cons_self] at hlen hlen'
      obtain ⟨f, free, rfl⟩ := List.exists_cons_of_length_eq_add_one hlen
      obtain ⟨f', free', rfl⟩ := List.exists_cons_of_length_eq_add_one hlen'
      rcases List.cons_lt_cons_iff.mp h with hlt | ⟨rfl, hlt⟩
      · exact List.cons_lt_cons_iff.mpr (.inl hlt)
      · have htail := ih (Nat.succ_injective hlen) (Nat.succ_injective hlen') hlt
        exact List.cons_lt_cons_self.mpr htail

end LoopTiling
