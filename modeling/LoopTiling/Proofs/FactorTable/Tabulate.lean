import Mathlib.Algebra.BigOperators.Group.Finset.Piecewise
import Mathlib.Data.List.Nodup
import LoopTiling.Proofs.FactorTable.Products

/-!
# The rows of a factor table

Pins at different levels below the number of levels fix slots. The rows of a table over such pins are
exactly the factorizations of the bound that agree with the pins, in strictly ascending order, and
there is one exactly if the product of the pins divides the bound, and is the bound where no level is
left free.
-/
namespace LoopTiling

theorem lookup_eq_some_iff_mem {α β : Type*} [BEq α] [LawfulBEq α] {es : List (α × β)} {a : α} {b : β}
    (hd : (es.map Prod.fst).Nodup) : es.lookup a = some b ↔ (a, b) ∈ es := by
  induction es with
  | nil => simp
  | cons e es ih =>
    obtain ⟨a', b'⟩ := e
    rw [List.map_cons, List.nodup_cons] at hd
    by_cases h : a = a'
    · subst h
      have hnot : (a, b) ∉ es := fun hmem => hd.1 (List.mem_map.mpr ⟨(a, b), hmem, rfl⟩)
      simp [hnot, eq_comm]
    · have hne : (a == a') = false := beq_false_of_ne h
      simp [List.lookup_cons, hne, ih hd.2, h]

namespace FactorTable

/-- Pins at different levels below a number of levels, with positive factors. -/
structure PinsFit (levelCount : ℕ) (pins : List (ℕ × ℕ)) : Prop where
  nodup : (pins.map Prod.fst).Nodup
  level_lt : ∀ p ∈ pins, p.1 < levelCount
  pos : ∀ p ∈ pins, 0 < p.2

/-- A factorization of a bound over a number of levels that agrees with pins. -/
structure IsFactorization (bound levelCount : ℕ) (pins : List (ℕ × ℕ)) (fs : List ℕ) : Prop where
  length : fs.length = levelCount
  pos : ∀ f ∈ fs, 0 < f
  prod : fs.prod = bound
  pinned : ∀ p ∈ pins, fs[p.1]? = some p.2

variable {bound levelCount : ℕ} {pins : List (ℕ × ℕ)}

theorem pinProduct_pos (hpos : ∀ p ∈ pins, 0 < p.2) : 0 < pinProduct pins := by
  induction pins with
  | nil => exact Nat.one_pos
  | cons p pins ih =>
    rw [List.forall_mem_cons] at hpos
    exact Nat.mul_pos hpos.1 (ih hpos.2)

theorem residual_pos (hb : 0 < bound) (hpos : ∀ p ∈ pins, 0 < p.2) (hdvd : pinProduct pins ∣ bound) :
    0 < bound / pinProduct pins :=
  Nat.div_pos (Nat.le_of_dvd hb hdvd) (pinProduct_pos hpos)

theorem dvd_pinProduct {p : ℕ × ℕ} (hp : p ∈ pins) : p.2 ∣ pinProduct pins := by
  induction pins with
  | nil => cases hp
  | cons q pins ih =>
    rcases List.mem_cons.mp hp with rfl | hp
    · exact Nat.dvd_mul_right _ _
    · exact (ih hp).mul_left _

theorem length_slots : (slots levelCount pins).length = levelCount := by simp [slots]

/-- The pins fix exactly their own factors in the slots. -/
theorem fixedProduct_slots (hp : PinsFit levelCount pins) :
    fixedProduct (slots levelCount pins) = pinProduct pins := by
  have hrange (g : ℕ → ℕ) : ((List.range levelCount).map g).prod =
      ∏ i ∈ Finset.range levelCount, g i := rfl
  rw [fixedProduct, slots, List.map_map, hrange]
  obtain ⟨hd, hlt, -⟩ := hp
  induction pins with
  | nil => simp [pinProduct]
  | cons p pins ih =>
    obtain ⟨i, f⟩ := p
    rw [List.map_cons, List.nodup_cons] at hd
    rw [List.forall_mem_cons] at hlt
    have hfree : pins.lookup i = none := by
      rw [List.lookup_eq_none_iff]
      rintro ⟨j, g⟩ hmem
      exact bne_iff_ne.mpr fun he => hd.1 (List.mem_map.mpr ⟨(j, g), hmem, he.symm⟩)
    have hsplit (j : ℕ) : (((i, f) :: pins).lookup j).getD 1 =
        (if j = i then f else 1) * (pins.lookup j).getD 1 := by
      by_cases h : j = i
      · subst h
        simp [hfree]
      · have hne : (j == i) = false := beq_false_of_ne h
        simp [List.lookup_cons, hne, h]
    simp only [Function.comp_apply] at ih ⊢
    rw [Finset.prod_congr rfl fun j _ => hsplit j, Finset.prod_mul_distrib, ih hd.2 hlt.2,
      Finset.prod_ite_eq', if_pos (Finset.mem_range.mpr hlt.1), pinProduct]

theorem count_slots (hp : PinsFit levelCount pins) :
    (slots levelCount pins).count none + pins.length = levelCount := by
  have hkeys : ((List.range levelCount).filter (· ∈ pins.map Prod.fst)).Perm (pins.map Prod.fst) := by
    refine (List.perm_ext_iff_of_nodup (List.nodup_range.filter _) hp.nodup).mpr fun i => ?_
    simp only [List.mem_filter, List.mem_range, decide_eq_true_eq, and_iff_right_iff_imp]
    intro hi
    obtain ⟨p, hmem, rfl⟩ := List.mem_map.mp hi
    exact hp.level_lt p hmem
  have hfixed : (List.range levelCount).countP (· ∈ pins.map Prod.fst) = pins.length := by
    rw [List.countP_eq_length_filter, hkeys.length_eq, List.length_map]
  have hfree : (slots levelCount pins).count none =
      (List.range levelCount).countP fun i => !decide (i ∈ pins.map Prod.fst) := by
    rw [slots, List.count, List.countP_map]
    apply List.countP_congr
    intro i _
    simp only [Function.comp_apply, beq_iff_eq, List.lookup_eq_none_iff, bne_iff_ne, ne_eq,
      List.mem_map, Bool.not_eq_true', decide_eq_false_iff_not, not_exists, not_and]
    exact ⟨fun h p hmem he => h p hmem he.symm, fun h p hmem he => h p hmem he.symm⟩
  have htotal := List.length_eq_countP_add_countP (· ∈ pins.map Prod.fst)
    (l := List.range levelCount)
  rw [List.length_range, hfixed] at htotal
  rw [hfree]
  simp only [decide_eq_true_eq, decide_not] at htotal ⊢
  omega

theorem fills_slots_iff (hp : PinsFit levelCount pins) {fs : List ℕ} :
    Fills (slots levelCount pins) fs ↔
      fs.length = levelCount ∧ ∀ p ∈ pins, fs[p.1]? = some p.2 := by
  rw [Fills, List.forall₂_iff_get]
  constructor
  · rintro ⟨hlen, hslot⟩
    rw [length_slots] at hlen
    refine ⟨hlen.symm, fun p hmem => ?_⟩
    have hi : p.1 < fs.length := hlen ▸ hp.level_lt p hmem
    have hfix := hslot p.1 (by rw [length_slots]; exact hp.level_lt p hmem) hi p.2
      (by simpa [slots] using (lookup_eq_some_iff_mem hp.nodup).mpr hmem)
    rw [List.getElem?_eq_getElem hi, hfix, List.get_eq_getElem]
  · rintro ⟨hlen, hpinned⟩
    refine ⟨length_slots.trans hlen.symm, fun i hslot hi g hg => ?_⟩
    have hmem : (i, g) ∈ pins := (lookup_eq_some_iff_mem hp.nodup).mp (by simpa [slots] using hg)
    have hfix := hpinned (i, g) hmem
    rw [List.getElem?_eq_getElem hi] at hfix
    exact (Option.some.inj hfix).symm

/-- A table's rows are exactly the factorizations that agree with the pins. -/
theorem mem_tabulate (hb : 0 < bound) (hp : PinsFit levelCount pins)
    (hdvd : pinProduct pins ∣ bound) {fs : List ℕ} :
    fs ∈ tabulate bound levelCount pins ↔ IsFactorization bound levelCount pins fs := by
  have hpp : 0 < pinProduct pins := pinProduct_pos hp.pos
  have hresidual := residual_pos hb hp.pos hdvd
  have hslots : ∀ g, some g ∈ slots levelCount pins → 0 < g := by
    intro g hg
    obtain ⟨i, _, hi⟩ := List.mem_map.mp hg
    exact hp.pos (i, g) ((lookup_eq_some_iff_mem hp.nodup).mp hi)
  simp only [tabulate, List.mem_map, mem_orderedProducts hresidual]
  constructor
  · rintro ⟨free, ⟨hlen, hpos, hprod⟩, rfl⟩
    obtain ⟨hlength, hpinned⟩ := (fills_slots_iff hp).mp fills_fillSlots
    refine ⟨hlength, pos_of_mem_fillSlots hslots hpos, ?_, hpinned⟩
    rw [prod_fillSlots hlen, fixedProduct_slots hp, hprod, Nat.mul_div_cancel' hdvd]
  · rintro ⟨hlength, hpos, hprod, hpinned⟩
    obtain ⟨free, hlen, hsub, rfl⟩ := exists_fillSlots ((fills_slots_iff hp).mpr ⟨hlength, hpinned⟩)
    refine ⟨free, ⟨hlen, fun f hf => hpos f (hsub f hf), ?_⟩, rfl⟩
    rw [prod_fillSlots hlen, fixedProduct_slots hp] at hprod
    rw [← hprod, Nat.mul_div_cancel_left _ hpp]

theorem tabulate_sorted (hb : 0 < bound) (hp : PinsFit levelCount pins)
    (hdvd : pinProduct pins ∣ bound) : (tabulate bound levelCount pins).Pairwise (· < ·) := by
  have hresidual := residual_pos hb hp.pos hdvd
  refine List.pairwise_map.mpr ((orderedProducts_sorted hresidual).imp_of_mem ?_)
  intro free free' hfree hfree' hlt
  exact fillSlots_lt ((mem_orderedProducts hresidual).mp hfree).1
    ((mem_orderedProducts hresidual).mp hfree').1 hlt

/-- What the pins have to satisfy together for a factorization to exist. -/
theorem exists_isFactorization_iff (hb : 0 < bound) (hp : PinsFit levelCount pins) :
    (∃ fs, IsFactorization bound levelCount pins fs) ↔
      pinProduct pins ∣ bound ∧ (pins.length = levelCount → pinProduct pins = bound) := by
  have hcount := count_slots hp
  constructor
  · rintro ⟨fs, hlength, _, hprod, hpinned⟩
    obtain ⟨free, hlen, _, rfl⟩ := exists_fillSlots ((fills_slots_iff hp).mpr ⟨hlength, hpinned⟩)
    rw [prod_fillSlots hlen, fixedProduct_slots hp] at hprod
    refine ⟨⟨free.prod, hprod.symm⟩, fun hfull => ?_⟩
    obtain rfl : free = [] := List.eq_nil_of_length_eq_zero (by omega)
    simpa using hprod
  · rintro ⟨hdvd, hfull⟩
    have hresidual := residual_pos hb hp.pos hdvd
    simp only [← mem_tabulate hb hp hdvd]
    simp only [tabulate, List.mem_map, mem_orderedProducts hresidual]
    cases hk : (slots levelCount pins).count none with
    | zero =>
      have hall : pinProduct pins = bound := hfull (by omega)
      exact ⟨_, [], ⟨rfl, by simp, by rw [hall, Nat.div_self hb, List.prod_nil]⟩, rfl⟩
    | succ k =>
      -- One free level takes all that the pins leave, the others take one.
      refine ⟨_, bound / pinProduct pins :: List.replicate k 1, ⟨by simp, ?_, by simp⟩, rfl⟩
      refine List.forall_mem_cons.mpr ⟨hresidual, fun f hf => ?_⟩
      rw [List.eq_of_mem_replicate hf]
      exact Nat.one_pos

end FactorTable

end LoopTiling
