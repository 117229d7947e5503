import Mathlib.Algebra.Order.BigOperators.GroupWithZero.List
import Mathlib.Algebra.Order.Ring.Nat
import LoopTiling.Proofs.FactorTable.Refusals
import LoopTiling.Proofs.FactorTable.Values

/-!
# Tables of whole numbers

A whole number as bound, one as number of levels and a map of pins between whole numbers are accepted
exactly if some tuple of positive factors, one for each level, has the bound as its product and the
pinned factors at their levels, provided that each pinned level can be shown. The rows are then all such
tuples, in strictly ascending order. What is refused is refused as an invalid configuration, unless a
number that the refusal shows has too many digits.
-/
namespace LoopTiling

namespace FactorTable

/-- A tuple of positive factors, one for each level, with a given product and the pinned factors at
their levels. -/
structure IsTuple (bound levelCount : ℤ) (pins : List (ℤ × ℤ)) (fs : List ℕ) : Prop where
  length : (fs.length : ℤ) = levelCount
  pos : ∀ f ∈ fs, 0 < f
  prod : (fs.prod : ℤ) = bound
  pinned : ∀ p ∈ pins, ∃ level factor : ℕ, p = ((level : ℤ), (factor : ℤ)) ∧
    fs[level]? = some factor

variable {bound levelCount : ℤ} {pins : List (ℤ × ℤ)} {fs : List ℕ} {es : List (Value × Value)}

theorem IsTuple.pin_range (h : IsTuple bound levelCount pins fs) :
    ∀ p ∈ pins, (0 ≤ p.1 ∧ p.1 < levelCount) ∧ 0 < p.2 ∧ p.2 ∣ bound := by
  intro p hp
  obtain ⟨level, factor, rfl, hget⟩ := h.pinned p hp
  obtain ⟨hlt, hfactor⟩ := List.getElem?_eq_some_iff.mp hget
  have hmem : factor ∈ fs := hfactor ▸ List.getElem_mem hlt
  have hlen := h.length
  refine ⟨⟨Int.natCast_nonneg level, by omega⟩, Int.natCast_pos.mpr (h.pos factor hmem), ?_⟩
  rw [← h.prod]
  exact Int.natCast_dvd_natCast.mpr (List.dvd_prod hmem)

theorem IsTuple.bound_pos (h : IsTuple bound levelCount pins fs) : 0 < bound := by
  rw [← h.prod]
  exact Int.natCast_pos.mpr (List.prod_pos h.pos)

theorem IsTuple.word (h : IsTuple bound levelCount pins fs) (hb : bound < 2 ^ 63) {f : ℕ}
    (hf : f ∈ fs) : (Int64.ofNat f).toInt = f := by
  have hle : f ≤ fs.prod := Nat.le_of_dvd (List.prod_pos h.pos) (List.dvd_prod hf)
  have hprod := h.prod
  exact Int64.toInt_ofNat_of_lt (by omega)

/-- Over pins in range the tuples are the factorizations over the same numbers as naturals. -/
theorem isTuple_iff_isFactorization (hb : 0 ≤ bound) (hl : 0 ≤ levelCount)
    (hpins : ∀ p ∈ pins, 0 ≤ p.1 ∧ 0 < p.2) :
    IsTuple bound levelCount pins fs ↔
      IsFactorization bound.toNat levelCount.toNat (toNats pins) fs := by
  obtain ⟨b, rfl⟩ := Int.eq_ofNat_of_zero_le hb
  obtain ⟨n, rfl⟩ := Int.eq_ofNat_of_zero_le hl
  have hpinned : (∀ p ∈ pins, ∃ level factor : ℕ, p = ((level : ℤ), (factor : ℤ)) ∧
      fs[level]? = some factor) ↔ ∀ q ∈ toNats pins, fs[q.1]? = some q.2 := by
    simp only [toNats, List.forall_mem_map]
    refine forall₂_congr fun p hp => ?_
    constructor
    · rintro ⟨level, factor, rfl, hget⟩
      exact hget
    · intro hget
      have hlevel : (p.1.toNat : ℤ) = p.1 := Int.toNat_of_nonneg (hpins p hp).1
      have hfactor : (p.2.toNat : ℤ) = p.2 := Int.toNat_of_nonneg (hpins p hp).2.le
      exact ⟨p.1.toNat, p.2.toNat, by rw [hlevel, hfactor], hget⟩
  constructor
  · rintro ⟨hlen, hpos, hprod, hpin⟩
    exact ⟨Int.ofNat.inj hlen, hpos, Int.ofNat.inj hprod, hpinned.mp hpin⟩
  · rintro ⟨hlen, hpos, hprod, hpin⟩
    exact ⟨congrArg Nat.cast hlen, hpos, congrArg Nat.cast hprod, hpinned.mpr hpin⟩

/-- Keys that differ are different levels. -/
theorem pinsFit_toNats (hes : List.Forall₂ IsWholePin es pins) (hd : (Value.map es).KeysDiffer)
    (hpins : ∀ p ∈ pins, (0 ≤ p.1 ∧ p.1 < levelCount) ∧ 0 < p.2) :
    PinsFit levelCount.toNat (toNats pins) := by
  have hall : List.Forall₂ IsPin es (toNats pins) := by
    refine List.forall₂_map_right_iff.mpr ?_
    clear hd
    induction hes with
    | nil => exact .nil
    | @cons e p es pins hep _ ih =>
      rw [List.forall_mem_cons] at hpins
      obtain ⟨⟨⟨hlevel, -⟩, hfactor⟩, hrest⟩ := hpins
      refine .cons ⟨?_, ?_⟩ (ih hrest)
      · rw [Int.toNat_of_nonneg hlevel]
        exact hep.level.1
      · rw [Int.toNat_of_nonneg hfactor.le]
        exact hep.factor.1
  refine ⟨nodup_of_isPin hall (hd es rfl), fun q hq => ?_, fun q hq => ?_⟩
  · obtain ⟨p, hp, rfl⟩ := List.mem_map.mp hq
    obtain ⟨⟨hnonneg, hlt⟩, -⟩ := hpins p hp
    exact (Int.toNat_lt_toNat (hnonneg.trans_lt hlt)).mpr hlt
  · obtain ⟨p, hp, rfl⟩ := List.mem_map.mp hq
    exact Int.lt_toNat.mpr (hpins p hp).2

section Tables

variable [Text.DigitLimit] {b n : Numeral}

/-- Pins at different levels are accepted exactly if they can be shown and some tuple agrees with
them. -/
theorem acceptsWhole_iff_exists_isTuple (hl : 0 < levelCount) (hd : (Value.map es).KeysDiffer)
    (hes : List.Forall₂ IsWholePin es pins) :
    AcceptsWhole bound levelCount pins ↔
      (∀ p ∈ pins, Text.isShort p.1) ∧ ∃ fs, IsTuple bound levelCount pins fs := by
  have hlength : (toNats pins).length = pins.length := List.length_map _
  constructor
  · intro h
    have hfit := pinsFit_toNats hes hd fun p hp => ⟨h.level_range p hp, h.factor_pos p hp⟩
    obtain ⟨fs, hfs⟩ := (exists_isFactorization_iff (Int.lt_toNat.mpr h.bound_pos) hfit).mpr
      ⟨h.product_dvd, hlength ▸ h.product_eq⟩
    refine ⟨h.level_short, fs, (isTuple_iff_isFactorization h.bound_pos.le hl.le ?_).mpr hfs⟩
    exact fun p hp => ⟨(h.level_range p hp).1, h.factor_pos p hp⟩
  · rintro ⟨hshort, fs, hfs⟩
    have hb := hfs.bound_pos
    have hrange := hfs.pin_range
    have hfit := pinsFit_toNats hes hd fun p hp => ⟨(hrange p hp).1, (hrange p hp).2.1⟩
    have hfact := (isTuple_iff_isFactorization hb.le hl.le fun p hp =>
      ⟨(hrange p hp).1.1, (hrange p hp).2.1⟩).mp hfs
    obtain ⟨hdvd, hall⟩ := (exists_isFactorization_iff (Int.lt_toNat.mpr hb) hfit).mp ⟨fs, hfact⟩
    exact ⟨hb, hl, hshort, fun p hp => (hrange p hp).1, fun p hp => (hrange p hp).2.1,
      fun p hp => (hrange p hp).2.2, hdvd, hlength ▸ hall⟩

/-- The rows over accepted pins at different levels are the tuples, in strictly ascending order. -/
theorem AcceptsWhole.rows (h : AcceptsWhole bound levelCount pins) (hd : (Value.map es).KeysDiffer)
    (hes : List.Forall₂ IsWholePin es pins) :
    (∀ fs, fs ∈ tabulate bound.toNat levelCount.toNat (toNats pins) ↔
        IsTuple bound levelCount pins fs) ∧
      (tabulate bound.toNat levelCount.toNat (toNats pins)).Pairwise (· < ·) := by
  have hb : 0 < bound.toNat := Int.lt_toNat.mpr h.bound_pos
  have hfit := pinsFit_toNats hes hd fun p hp => ⟨h.level_range p hp, h.factor_pos p hp⟩
  refine ⟨fun fs => ?_, tabulate_sorted hb hfit h.product_dvd⟩
  rw [isTuple_iff_isFactorization h.bound_pos.le h.levelCount_pos.le fun p hp =>
    ⟨(h.level_range p hp).1, h.factor_pos p hp⟩]
  exact mem_tabulate hb hfit h.product_dvd

/-- Whether a table has the tuples as its rows, each once and in ascending order, and finds them by their
places. Below `2 ^ 63` the factors are words. -/
structure Lists (bound levelCount : ℤ) (pins : List (ℤ × ℤ)) (t : FactorTable) : Prop where
  mem_rows : ∀ fs, fs ∈ t.rows ↔ IsTuple bound levelCount pins fs
  ascending : t.rows.Pairwise (· < ·)
  rowAt : ∀ (i : ℕ) (h : i < t.rows.length), t.rowAt (.int i) = .ok (t.rows.get ⟨i, h⟩)
  words : bound < 2 ^ 63 → ∀ fs ∈ t.rows, ∀ f ∈ fs, (Int64.ofNat f).toInt = f

/-- A bound, a number of levels and pins to different levels have a table exactly if some tuple agrees
with them and each pinned level can be shown. The table has all such tuples. What has no table is
refused as an invalid configuration, unless a number that the refusal shows has too many digits. -/
theorem ofValues_lists_iff (hl : 0 < n.toInt) (hd : (Value.map es).KeysDiffer)
    (hes : List.Forall₂ IsWholePin es pins) :
    ((∀ p ∈ pins, Text.isShort p.1) ∧ (∃ fs, IsTuple b.toInt n.toInt pins fs) →
      ∃ t, ofValues b.toValue n.toValue (.map es) = .ok t ∧ Lists b.toInt n.toInt pins t) ∧
    (¬ ((∀ p ∈ pins, Text.isShort p.1) ∧ ∃ fs, IsTuple b.toInt n.toInt pins fs) →
      ∃ fault, ofValues b.toValue n.toValue (.map es) = .error fault ∧
        fault.RefusesConfiguration (mentioned b.toInt n.toInt pins)) := by
  rw [← acceptsWhole_iff_exists_isTuple hl hd hes]
  constructor
  · intro haccepts
    obtain ⟨hmem, hascending⟩ := haccepts.rows hd hes
    refine ⟨_, (ofValues_whole_eq_ok hes).mpr ⟨haccepts, rfl⟩, hmem, hascending, fun i hi => ?_,
      fun hb fs hfs f hf => ((hmem fs).mp hfs).word hb hf⟩
    rw [rowAt_natCast hi]
    exact congrArg _ (List.getD_eq_getElem _ _ hi)
  · intro hrefused
    cases htable : ofValues b.toValue n.toValue (.map es) with
    | ok t => exact absurd ((ofValues_whole_eq_ok hes).mp htable).1 hrefused
    | error fault => exact ⟨fault, rfl, (failsOnly_wholePins hes fault htable).refusesConfiguration⟩

end Tables

theorem ofValues_lists_iff_twelve :
    (∃ t, ofValues (.int 12) (.int 3) (.map [(.int 0, .int 3)]) = .ok t ∧ Lists 12 3 [(0, 3)] t) ∧
      ∃ fault, ofValues (.int 12) (.int 3) (.map [(.int 0, .int 5)]) = .error fault ∧
        fault.RefusesConfiguration (mentioned 12 3 [(0, 5)]) := by
  have hdiffer (v : Value) : (Value.map [(.int 0, v)]).KeysDiffer := by
    intro es hes
    obtain rfl := Value.map.inj hes
    exact List.pairwise_singleton _ _
  have hpin (k : ℤ) : List.Forall₂ IsWholePin [(.int 0, .int k)] [(0, k)] :=
    .cons ⟨Value.isWhole_toValue (.plain 0), Value.isWhole_toValue (.plain k)⟩ .nil
  constructor
  · refine (ofValues_lists_iff (b := .plain 12) (n := .plain 3) (by decide) (hdiffer _) (hpin 3)).1
      ⟨?_, [3, 1, 4], rfl, by decide, rfl, ?_⟩
    · rw [List.forall_mem_singleton]
      decide +kernel
    · rw [List.forall_mem_singleton]
      exact ⟨0, 3, rfl, rfl⟩
  · refine (ofValues_lists_iff (b := .plain 12) (n := .plain 3) (by decide) (hdiffer _) (hpin 5)).2 ?_
    rintro ⟨-, fs, hfs⟩
    obtain ⟨-, -, hdvd⟩ := hfs.pin_range (0, 5) List.mem_cons_self
    exact absurd hdvd (by decide)

section PinnedTwice

variable {v : ℕ}

theorem not_isTuple_of_pinned_twice (hv : 1 < v) :
    ¬ IsTuple v levelCount [(0, v), (1, v)] fs := by
  intro h
  have hmem {level factor : ℕ} (hp : ((level : ℤ), (factor : ℤ)) ∈ [((0 : ℤ), (v : ℤ)), (1, v)]) :
      fs[level]? = some factor := by
    obtain ⟨_, _, heq, hget⟩ := h.pinned _ hp
    rw [Prod.mk.injEq, Int.natCast_inj, Int.natCast_inj] at heq
    rw [heq.1, heq.2, hget]
  have h₀ : fs[0]? = some v := hmem List.mem_cons_self
  have h₁ : fs[1]? = some v := hmem (List.mem_cons_of_mem _ List.mem_cons_self)
  have hpos : 0 < (fs.drop 2).prod := List.prod_pos fun f hf => h.pos f (List.mem_of_mem_drop hf)
  have hprod : v * (v * (fs.drop 2).prod) = v := by
    have hsplit : fs = v :: v :: fs.drop 2 := by
      match fs, h₀, h₁ with
      | a :: b :: rest, h₀, h₁ =>
        rw [Option.some.inj h₀, Option.some.inj h₁]
        rfl
    rw [← List.prod_cons, ← List.prod_cons, ← hsplit]
    exact Int.ofNat.inj h.prod
  have hle : v * v ≤ v * (v * (fs.drop 2).prod) :=
    Nat.mul_le_mul_left v (Nat.le_mul_of_pos_right v hpos)
  exact absurd (Nat.lt_mul_self_iff.mpr hv) (by omega)

/-- A bound that is pinned at two levels of three is refused for the product of the pins. -/
theorem ofValues_pinned_twice (hv : 1 < v) :
    ofValues (.int v) (.int 3) (.map [(.int 0, .int v), (.int 1, .int v)]) =
      .error (.pinsNotDivisor (v * v : ℕ) (.plain v)) := by
  have hes : List.Forall₂ IsWholePin [(.int 0, .int v), (.int 1, .int v)] [(0, (v : ℤ)), (1, (v : ℤ))] :=
    .cons ⟨Value.isWhole_toValue (.plain 0), Value.isWhole_toValue (.plain v)⟩
      (.cons ⟨Value.isWhole_toValue (.plain 1), Value.isWhole_toValue (.plain v)⟩ .nil)
  have hlevels : Text.isShort 0 ∧ Text.isShort 1 := by decide +kernel
  have hgiven : [(Value.int 0, Value.int v), (.int 1, .int v)].mapM (checkPin (.plain v) (.plain 3)) =
      .ok [(0, v), (1, v)] := by
    refine (mapM_checkPin_eq_ok hes).mpr ⟨?_, rfl⟩
    simp only [List.forall_mem_cons, Numeral.toInt_plain]
    exact ⟨⟨hlevels.1, by omega, by omega, dvd_rfl⟩, ⟨hlevels.2, by omega, by omega, dvd_rfl⟩,
      List.forall_mem_nil _⟩
  have hproduct : pinProduct [(0, v), (1, v)] = v * v := by
    rw [pinProduct, pinProduct, pinProduct, mul_one]
  have hlt : v < v * v := Nat.lt_mul_self_iff.mpr hv
  rw [ofValues_map, positive_int (by omega), ok_bind]
  rw [show positive Fault.factorLevelCount (.int 3) = .ok (.plain 3) from rfl, ok_bind, hgiven, ok_bind,
    checkPins]
  simp only [hproduct, Numeral.toInt_plain]
  rw [if_pos (by rw [Int.emod_eq_of_lt (by omega) (by exact_mod_cast hlt)]; omega)]
  rfl

/-- A refusal that would show a product of too many digits is no refusal of a configuration. -/
theorem kind_of_pinned_twice :
    (¬ ∃ fs, IsTuple (10 ^ 4000 : ℕ) 3 [(0, (10 ^ 4000 : ℕ)), (1, (10 ^ 4000 : ℕ))] fs) ∧
      ∃ fault, ofValues (.int (10 ^ 4000 : ℕ)) (.int 3)
          (.map [(.int 0, .int (10 ^ 4000 : ℕ)), (.int 1, .int (10 ^ 4000 : ℕ))]) = .error fault ∧
        fault.kind = .value := by
  have hv : 1 < 10 ^ 4000 := by decide +kernel
  refine ⟨fun ⟨fs, hfs⟩ => not_isTuple_of_pinned_twice hv hfs, _, ofValues_pinned_twice hv, ?_⟩
  decide +kernel

end PinnedTwice

end FactorTable

end LoopTiling
