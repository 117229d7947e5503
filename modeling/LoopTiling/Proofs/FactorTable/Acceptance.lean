import Mathlib.Data.List.GetD
import LoopTiling.Proofs.FactorTable.Tabulate
import LoopTiling.Proofs.Index
import LoopTiling.Proofs.Printing

/-!
# When a factor table is accepted

Over a map of pins from levels to numerals a table is built exactly when the pins lie below the number
of levels, their factors are positive, each divides the bound, and so does their product, which is the
bound where every level is pinned. Over pins that a level structure has checked this says that a
factorization with these pins exists.
-/
namespace LoopTiling.FactorTable

/-- Pins as the levels of a structure state them: a map from level to numeral. -/
def pinValue (pins : List (ℕ × Numeral)) : Value :=
  .map (pins.map fun (level, factor) => (.int level, factor.toValue))

def natPins (pins : List (ℕ × Numeral)) : List (ℕ × ℕ) :=
  pins.map fun (level, factor) => (level, factor.toInt.toNat)

theorem length_natPins (pins : List (ℕ × Numeral)) : (natPins pins).length = pins.length :=
  List.length_map _

/-- An entry that pins a whole number to a whole number. -/
structure IsWholePin (e : Value × Value) (p : ℤ × ℤ) : Prop where
  level : e.1.IsWhole p.1
  factor : e.2.IsWhole p.2

def toNats (pins : List (ℤ × ℤ)) : List (ℕ × ℕ) := pins.map fun p => (p.1.toNat, p.2.toNat)

/-- The pins of a structure as pins of whole numbers. -/
def wholePins (pins : List (ℕ × Numeral)) : List (ℤ × ℤ) :=
  pins.map fun (level, factor) => ((level : ℤ), factor.toInt)

theorem toNats_wholePins (pins : List (ℕ × Numeral)) : toNats (wholePins pins) = natPins pins := by
  rw [toNats, wholePins, natPins, List.map_map]
  rfl

theorem isWholePin_pinValue (pins : List (ℕ × Numeral)) : List.Forall₂ IsWholePin
    (pins.map fun (level, factor) => (Value.int level, factor.toValue)) (wholePins pins) := by
  rw [wholePins, List.forall₂_map_left_iff, List.forall₂_map_right_iff, List.forall₂_same]
  exact fun p _ => ⟨Value.isWhole_toValue (.plain p.1), Value.isWhole_toValue p.2⟩

theorem pinPart_of_isWhole {what : String} {v : Value} {n : ℤ} (h : v.IsWhole n) :
    pinPart what v = .ok n := by
  rw [pinPart, h.asWhole_eq]

theorem positive_eq_ok {fault : Value → Fault} {v : Value} {n : Numeral} :
    positive fault v = .ok n ↔ v.numeral? = some n ∧ 0 < n.toInt := by
  rw [positive]
  split
  · next m hm =>
    rw [hm, Option.some.injEq]
    split
    · next hpos =>
      refine ⟨nofun, ?_⟩
      rintro ⟨rfl, hn⟩
      omega
    · next hpos =>
      rw [Except.ok.injEq]
      constructor
      · rintro rfl
        exact ⟨rfl, by omega⟩
      · exact And.left
  · next hnone => simp [hnone]

theorem positive_toValue {fault : Value → Fault} {n m : Numeral} :
    positive fault n.toValue = .ok m ↔ 0 < n.toInt ∧ m = n := by
  rw [positive_eq_ok, Value.numeral?_toValue, Option.some.injEq]
  constructor
  · rintro ⟨rfl, hpos⟩
    exact ⟨hpos, rfl⟩
  · rintro ⟨hpos, rfl⟩
    exact ⟨rfl, hpos⟩

theorem positive_int {fault : Value → Fault} {n : ℕ} (hn : 0 < n) :
    positive fault (.int n) = .ok (.plain n) :=
  (positive_toValue (n := .plain n)).mpr ⟨Int.natCast_pos.mpr hn, rfl⟩

variable {bound levelCount : ℕ}

theorem checkPins_eq_ok {b n : Numeral} (hb : b.toInt = bound) (hn : n.toInt = levelCount)
    {pins : List (ℕ × ℕ)} : checkPins b n pins = .ok () ↔
      pinProduct pins ∣ bound ∧ (pins.length = levelCount → pinProduct pins = bound) := by
  simp only [checkPins, refuse_eq_ok, refuse_last_eq_ok, pure_eq_ok, and_true]
  simp only [hb, hn, ne_eq, not_not, not_and, Int.natCast_inj, ← Int.dvd_iff_emod_eq_zero,
    Int.natCast_dvd_natCast]

/-- The rows of a table over pins that fit are numbered by their places. -/
theorem bijOn_row_of_tabulate {t : FactorTable} {pins : List (ℕ × ℕ)}
    (hrows : t.rows = tabulate bound levelCount pins) (hb : 0 < bound)
    (hp : PinsFit levelCount pins) (hdvd : pinProduct pins ∣ bound) :
    Set.BijOn t.row (Set.Iio t.size) {fs | IsFactorization bound levelCount pins fs} := by
  have hmem (fs : List ℕ) : fs ∈ t.rows ↔ IsFactorization bound levelCount pins fs := by
    rw [hrows]
    exact mem_tabulate hb hp hdvd
  have hnodup : t.rows.Nodup := by
    rw [hrows]
    refine (tabulate_sorted hb hp hdvd).imp fun hlt he => ?_
    subst he
    exact List.lt_irrefl _ hlt
  have hrow {i : ℕ} (hi : i < t.size) : t.row i = t.rows.get ⟨i, hi⟩ := List.getD_eq_getElem _ _ hi
  refine ⟨?_, ?_, ?_⟩
  · intro i hi
    rw [hrow hi]
    exact (hmem _).mp (List.get_mem _ _)
  · intro i hi j hj he
    rw [hrow hi, hrow hj] at he
    exact congrArg Fin.val (hnodup.get_inj_iff.mp he)
  · intro fs hfs
    obtain ⟨i, hi, rfl⟩ := List.getElem_of_mem ((hmem fs).mpr hfs)
    exact ⟨i, hi, hrow hi⟩

theorem pinsFit_natPins {levelCount : ℕ} {pins : List (ℕ × Numeral)}
    (hd : (pins.map Prod.fst).Nodup) (hlt : ∀ p ∈ pins, p.1 < levelCount)
    (hpos : ∀ p ∈ pins, 0 < p.2.toInt) : PinsFit levelCount (natPins pins) := by
  refine ⟨?_, ?_, ?_⟩
  · rw [natPins, List.map_map]
    exact hd
  · intro p hp
    obtain ⟨q, hq, rfl⟩ := List.mem_map.mp hp
    exact hlt q hq
  · intro p hp
    obtain ⟨q, hq, rfl⟩ := List.mem_map.mp hp
    exact Int.lt_toNat.mpr (hpos q hq)

variable [limit : Text.DigitLimit] {pins : List (ℕ × Numeral)}

/-- A pin of whole numbers is accepted if its level can be shown and lies in range, and its factor is
positive and divides the bound. -/
theorem checkPin_eq_ok {b n : Numeral} {e : Value × Value} {level factor : ℤ}
    (hlevel : e.1.IsWhole level) (hfactor : e.2.IsWhole factor) {p : ℕ × ℕ} :
    checkPin b n e = .ok p ↔ Text.isShort level ∧ (0 ≤ level ∧ level < n.toInt) ∧ 0 < factor ∧
      factor ∣ b.toInt ∧ p = (level.toNat, factor.toNat) := by
  simp only [checkPin, pinPart_of_isWhole hlevel, pinPart_of_isWhole hfactor, ok_bind, bind_eq_ok,
    refuse_eq_ok, pure_eq_ok, shown_eq_ok]
  simp only [Text.decimal?, ne_eq, not_not, Int.dvd_iff_emod_eq_zero, not_or, not_lt, not_le]
  constructor
  · rintro ⟨s, hs, hrange, hpos, hdvd, rfl⟩
    exact ⟨by_contra fun hlong => by simp [hlong] at hs, hrange, by omega, hdvd, rfl⟩
  · rintro ⟨hshort, hrange, hpos, hdvd, rfl⟩
    exact ⟨toString level, if_pos hshort, hrange, by omega, hdvd, rfl⟩

/-- What whole numbers are accepted for as bound, as number of levels and as pins. -/
structure AcceptsWhole (bound levelCount : ℤ) (pins : List (ℤ × ℤ)) : Prop where
  bound_pos : 0 < bound
  levelCount_pos : 0 < levelCount
  level_short : ∀ p ∈ pins, Text.isShort p.1
  level_range : ∀ p ∈ pins, 0 ≤ p.1 ∧ p.1 < levelCount
  factor_pos : ∀ p ∈ pins, 0 < p.2
  factor_dvd : ∀ p ∈ pins, p.2 ∣ bound
  product_dvd : pinProduct (toNats pins) ∣ bound.toNat
  product_eq : pins.length = levelCount.toNat → pinProduct (toNats pins) = bound.toNat

section Whole

variable {b n : Numeral} {es : List (Value × Value)} {wholes : List (ℤ × ℤ)}

theorem mapM_checkPin_eq_ok (hes : List.Forall₂ IsWholePin es wholes) {given : List (ℕ × ℕ)} :
    es.mapM (checkPin b n) = .ok given ↔
      (∀ p ∈ wholes, Text.isShort p.1 ∧ (0 ≤ p.1 ∧ p.1 < n.toInt) ∧ 0 < p.2 ∧ p.2 ∣ b.toInt) ∧
        given = toNats wholes := by
  rw [mapM_eq_ok]
  induction hes generalizing given with
  | nil => simp [toNats]
  | @cons e p es wholes hep _ ih =>
    simp only [List.forall₂_cons_left_iff, checkPin_eq_ok hep.level hep.factor, ih,
      List.forall_mem_cons, toNats, List.map_cons]
    constructor
    · rintro ⟨q, rest, ⟨hshort, hrange, hpos, hdvd, rfl⟩, ⟨hrest, rfl⟩, rfl⟩
      exact ⟨⟨⟨hshort, hrange, hpos, hdvd⟩, hrest⟩, rfl⟩
    · rintro ⟨⟨⟨hshort, hrange, hpos, hdvd⟩, hrest⟩, rfl⟩
      exact ⟨_, _, ⟨hshort, hrange, hpos, hdvd, rfl⟩, ⟨hrest, rfl⟩, rfl⟩

theorem ofValues_map (bound levelCount : Value) (es : List (Value × Value)) :
    ofValues bound levelCount (.map es) = do
      let b ← positive .factorBound bound
      let n ← positive .factorLevelCount levelCount
      let given ← es.mapM (checkPin b n)
      checkPins b n given
      return ⟨b, n, given, tabulate b.toInt.toNat n.toInt.toNat given⟩ := by
  cases es <;> rfl

/-- Over whole numbers a table is built exactly if they are accepted. -/
theorem ofValues_whole_eq_ok (hes : List.Forall₂ IsWholePin es wholes) {t : FactorTable} :
    ofValues b.toValue n.toValue (.map es) = .ok t ↔ AcceptsWhole b.toInt n.toInt wholes ∧
      t = ⟨b, n, toNats wholes, tabulate b.toInt.toNat n.toInt.toNat (toNats wholes)⟩ := by
  have hlength : (toNats wholes).length = wholes.length := List.length_map _
  simp only [ofValues_map, bind_eq_ok, positive_toValue, mapM_checkPin_eq_ok hes, pure_eq_ok]
  constructor
  · rintro ⟨_, ⟨hb, rfl⟩, _, ⟨hn, rfl⟩, _, ⟨hall, rfl⟩, _, hcheck, rfl⟩
    rw [checkPins_eq_ok (Int.toNat_of_nonneg hb.le).symm (Int.toNat_of_nonneg hn.le).symm,
      hlength] at hcheck
    exact ⟨⟨hb, hn, fun p hp => (hall p hp).1, fun p hp => (hall p hp).2.1,
      fun p hp => (hall p hp).2.2.1, fun p hp => (hall p hp).2.2.2, hcheck.1, hcheck.2⟩, rfl⟩
  · rintro ⟨h, rfl⟩
    refine ⟨b, ⟨h.bound_pos, rfl⟩, n, ⟨h.levelCount_pos, rfl⟩, _, ⟨fun p hp => ⟨h.level_short p hp,
      h.level_range p hp, h.factor_pos p hp, h.factor_dvd p hp⟩, rfl⟩, (), ?_, rfl⟩
    rw [checkPins_eq_ok (Int.toNat_of_nonneg h.bound_pos.le).symm
      (Int.toNat_of_nonneg h.levelCount_pos.le).symm, hlength]
    exact ⟨h.product_dvd, h.product_eq⟩

end Whole

def tableOf (bound levelCount : ℕ) (pins : List (ℕ × Numeral)) : FactorTable :=
  ⟨.plain bound, .plain levelCount, natPins pins, tabulate bound levelCount (natPins pins)⟩

/-- What a bound, a number of levels and pins are accepted for. -/
structure Accepts (bound levelCount : ℕ) (pins : List (ℕ × Numeral)) : Prop where
  bound_pos : 0 < bound
  levelCount_pos : 0 < levelCount
  level_short : ∀ p ∈ pins, Text.isShort p.1
  level_lt : ∀ p ∈ pins, p.1 < levelCount
  factor_pos : ∀ p ∈ pins, 0 < p.2.toInt
  factor_dvd : ∀ p ∈ pins, p.2.toInt ∣ bound
  product_dvd : pinProduct (natPins pins) ∣ bound
  product_eq : pins.length = levelCount → pinProduct (natPins pins) = bound

theorem acceptsWhole_wholePins :
    AcceptsWhole bound levelCount (wholePins pins) ↔ Accepts bound levelCount pins := by
  have hlength : (wholePins pins).length = pins.length := List.length_map _
  constructor
  · rintro ⟨hb, hl, hshort, hrange, hpos, hdvd, hprod, hall⟩
    rw [toNats_wholePins] at hprod hall
    rw [hlength] at hall
    rw [wholePins, List.forall_mem_map] at hshort hrange hpos hdvd
    exact ⟨Int.natCast_pos.mp hb, Int.natCast_pos.mp hl, hshort,
      fun p hp => Int.ofNat_lt.mp (hrange p hp).2, hpos, hdvd, hprod, hall⟩
  · rintro ⟨hb, hl, hshort, hlt, hpos, hdvd, hprod, hall⟩
    rw [← toNats_wholePins] at hprod hall
    rw [← hlength] at hall
    refine ⟨Int.natCast_pos.mpr hb, Int.natCast_pos.mpr hl, ?_, ?_, ?_, ?_, hprod, hall⟩
    all_goals rw [wholePins, List.forall_mem_map]
    · exact hshort
    · exact fun p hp => ⟨Int.natCast_nonneg _, Int.ofNat_lt.mpr (hlt p hp)⟩
    · exact hpos
    · exact hdvd

theorem ofValues_eq_ok {t : FactorTable} :
    ofValues (.int bound) (.int levelCount) (pinValue pins) = .ok t ↔
      Accepts bound levelCount pins ∧ t = tableOf bound levelCount pins := by
  have hwhole := ofValues_whole_eq_ok (b := .plain bound) (n := .plain levelCount)
    (isWholePin_pinValue pins) (t := t)
  rw [Numeral.toInt_plain, Numeral.toInt_plain, acceptsWhole_wholePins, toNats_wholePins] at hwhole
  exact hwhole

/-- The rows of an accepted table are numbered by their places. -/
theorem Accepts.bijOn_row (h : Accepts bound levelCount pins) (hd : (pins.map Prod.fst).Nodup) :
    Set.BijOn (tableOf bound levelCount pins).row (Set.Iio (tableOf bound levelCount pins).size)
      {fs | IsFactorization bound levelCount (natPins pins) fs} :=
  bijOn_row_of_tabulate rfl h.bound_pos (pinsFit_natPins hd h.level_lt h.factor_pos) h.product_dvd

theorem Accepts.exists_isFactorization (h : Accepts bound levelCount pins)
    (hd : (pins.map Prod.fst).Nodup) : ∃ fs, IsFactorization bound levelCount (natPins pins) fs := by
  have hfit := pinsFit_natPins hd h.level_lt h.factor_pos
  refine (exists_isFactorization_iff h.bound_pos hfit).mpr ⟨h.product_dvd, fun hall => ?_⟩
  exact h.product_eq ((length_natPins pins).symm.trans hall)

theorem Accepts.size_pos (h : Accepts bound levelCount pins) (hd : (pins.map Prod.fst).Nodup) :
    0 < (tableOf bound levelCount pins).size := by
  obtain ⟨fs, hfs⟩ := h.exists_isFactorization hd
  obtain ⟨i, hi, -⟩ := (h.bijOn_row hd).surjOn hfs
  exact Nat.zero_lt_of_lt hi

/-- Pins that lie in range and are positive are accepted if and only if some factorization agrees
with them. -/
theorem accepts_iff (hb : 0 < bound) (hl : 0 < levelCount) (hd : (pins.map Prod.fst).Nodup)
    (hshort : ∀ p ∈ pins, Text.isShort p.1) (hlt : ∀ p ∈ pins, p.1 < levelCount)
    (hpos : ∀ p ∈ pins, 0 < p.2.toInt) :
    Accepts bound levelCount pins ↔
      ∃ fs, IsFactorization bound levelCount (natPins pins) fs := by
  constructor
  · exact fun h => h.exists_isFactorization hd
  · intro hfs
    have hfit := pinsFit_natPins hd hlt hpos
    rw [exists_isFactorization_iff hb hfit, length_natPins] at hfs
    obtain ⟨hdvd, hprod⟩ := hfs
    refine ⟨hb, hl, hshort, hlt, hpos, fun p hp => ?_, hdvd, hprod⟩
    have hfactor : p.2.toInt.toNat ∣ pinProduct (natPins pins) :=
      dvd_pinProduct (List.mem_map.mpr ⟨p, hp, rfl⟩)
    have hcast : (p.2.toInt.toNat : ℤ) = p.2.toInt := Int.toNat_of_nonneg (hpos p hp).le
    rw [← hcast]
    exact Int.natCast_dvd_natCast.mpr (hfactor.trans hdvd)

end LoopTiling.FactorTable
