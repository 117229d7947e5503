import LoopTiling.Proofs.FactorTable.Acceptance
import LoopTiling.Proofs.Keys
import LoopTiling.Proofs.Radix.Encoding

/-!
# The table of any values

Whatever values a table is built from, if it is built, then the bound and the number of levels are
positive whole numbers, the pins are a map from whole numbers to whole numbers or there are none,
and the rows are numbered by their places. A row has a positive factor for each level, its product
is the bound, and it has the pinned factors. The keys of a map are different from each other.
-/
namespace LoopTiling

/-- Whether the keys of a value, if it is a map, are different from each other. -/
def Value.KeysDiffer (v : Value) : Prop :=
  ∀ es, v = .map es → es.Pairwise fun e f => ¬ e.1.same f.1

namespace FactorTable

/-- Whether factors make a bound over a number of levels and agree with pins. -/
structure Fits (bound levelCount pinned : Value) (fs : List ℕ) : Prop where
  length : levelCount.index? = some (fs.length : ℤ)
  pos : ∀ f ∈ fs, 0 < f
  prod : bound.index? = some (fs.prod : ℤ)
  pinned : ∀ es, pinned = .map es → ∀ e ∈ es, ∃ level factor : ℕ,
    e.1.index? = some (level : ℤ) ∧ e.2.index? = some (factor : ℤ) ∧ fs[level]? = some factor

theorem index?_of_positive {fault : Value → Fault} {v : Value} {n : Numeral}
    (h : positive fault v = .ok n) : ∃ k : ℕ, v.index? = some (k : ℤ) ∧ n.toInt = k ∧ 0 < k := by
  obtain ⟨hn, hpos⟩ := positive_eq_ok.mp h
  have hcast : (n.toInt.toNat : ℤ) = n.toInt := Int.toNat_of_nonneg hpos.le
  refine ⟨n.toInt.toNat, ?_, hcast.symm, by omega⟩
  rw [hcast]
  exact Value.index?_of_numeral? hn

theorem index?_of_pinPart {what : String} {v : Value} {n : ℤ} (h : pinPart what v = .ok n) :
    v.index? = some n := by
  rw [pinPart, Value.asWhole.eq_def] at h
  cases v with
  | int | word | dim => exact congrArg some (Except.ok.inj h)
  | _ => cases h

theorem isWhole_of_pinPart {what : String} {v : Value} {n : ℤ} (h : pinPart what v = .ok n) :
    v.IsWhole n := by
  refine ⟨index?_of_pinPart h, ?_⟩
  rintro b rfl
  cases h

structure IsPin (e : Value × Value) (p : ℕ × ℕ) : Prop where
  level : e.1.index? = some (p.1 : ℤ)
  factor : e.2.index? = some (p.2 : ℤ)

/-- Keys that are different from each other give pins at different levels. -/
theorem nodup_of_isPin {es : List (Value × Value)} {pins : List (ℕ × ℕ)}
    (h : List.Forall₂ IsPin es pins) (hd : es.Pairwise fun e f => ¬ e.1.same f.1) :
    (pins.map Prod.fst).Nodup := by
  induction h with
  | nil => exact List.nodup_nil
  | @cons e p es pins hep hrest ih =>
    obtain ⟨hne, hd⟩ := List.pairwise_cons.mp hd
    refine List.nodup_cons.mpr ⟨fun hmem => ?_, ih hd⟩
    obtain ⟨q, hq, hlevel⟩ := List.mem_map.mp hmem
    obtain ⟨f, hf, hfq⟩ := exists_of_forall₂ hrest.flip hq
    exact hne f hf ((Value.same_of_index? hep.level hfq.level).mpr (by rw [hlevel]))

/-- Rows agree with pins exactly if they agree with the entries that give them. -/
theorem pinned_iff {es : List (Value × Value)} {pins : List (ℕ × ℕ)}
    (h : List.Forall₂ IsPin es pins) {fs : List ℕ} :
    (∀ p ∈ pins, fs[p.1]? = some p.2) ↔ ∀ e ∈ es, ∃ level factor : ℕ,
      e.1.index? = some (level : ℤ) ∧ e.2.index? = some (factor : ℤ) ∧ fs[level]? = some factor := by
  constructor
  · intro hpins e he
    obtain ⟨p, hp, hep⟩ := exists_of_forall₂ h he
    exact ⟨p.1, p.2, hep.level, hep.factor, hpins p hp⟩
  · intro hes p hp
    obtain ⟨e, he, hep⟩ := exists_of_forall₂ h.flip hp
    obtain ⟨level, factor, hlevel, hfactor, hfs⟩ := hes e he
    rw [hep.level, Option.some.injEq, Nat.cast_inj] at hlevel
    rw [hep.factor, Option.some.injEq, Nat.cast_inj] at hfactor
    rw [hlevel, hfactor, hfs]

def givenPins (pinned : Value) : Except Fault (List (Value × Value)) :=
  if pinned.truthy then pinned.entries else .ok []

theorem givenPins_map (es : List (Value × Value)) : givenPins (.map es) = .ok es := by
  cases es <;> rfl

theorem givenPins_eq_ok {pinned : Value} {es : List (Value × Value)}
    (h : givenPins pinned = .ok es) : pinned = .map es ∨ es = [] ∧ ∀ fs, pinned ≠ .map fs := by
  cases pinned with
  | map fs =>
    cases fs with
    | nil => exact .inl (congrArg Value.map (Except.ok.inj h))
    | cons f fs => exact .inl (congrArg Value.map (Except.ok.inj h))
  | _ =>
    rw [givenPins] at h
    split at h
    · cases h
    · exact .inr ⟨(Except.ok.inj h).symm, fun _ => Value.noConfusion⟩

/-- Factorizations that agree with the pins read from values are the factors that fit the values. -/
theorem isFactorization_iff_fits {bound levelCount pinned : Value} {k count : ℕ}
    {es : List (Value × Value)} {pins : List (ℕ × ℕ)} (hk : bound.index? = some (k : ℤ))
    (hcount : levelCount.index? = some (count : ℤ)) (hes : givenPins pinned = .ok es)
    (hall : List.Forall₂ IsPin es pins) {fs : List ℕ} :
    IsFactorization k count pins fs ↔ Fits bound levelCount pinned fs := by
  have hpinned : (∀ p ∈ pins, fs[p.1]? = some p.2) ↔ ∀ es, pinned = .map es → ∀ e ∈ es,
      ∃ level factor : ℕ, e.1.index? = some (level : ℤ) ∧ e.2.index? = some (factor : ℤ) ∧
        fs[level]? = some factor := by
    rw [pinned_iff hall]
    rcases givenPins_eq_ok hes with rfl | ⟨rfl, hnone⟩
    · constructor
      · rintro h _ ⟨⟩
        exact h
      · exact fun h => h es rfl
    · exact ⟨fun _ es he => absurd he (hnone es), fun _ => List.forall_mem_nil _⟩
  constructor
  · rintro ⟨hlen, hpos, hprod, hpin⟩
    exact ⟨by rw [hcount, hlen], hpos, by rw [hk, hprod], hpinned.mp hpin⟩
  · rintro ⟨hlen, hpos, hprod, hpin⟩
    rw [hcount, Option.some.injEq, Nat.cast_inj] at hlen
    rw [hk, Option.some.injEq, Nat.cast_inj] at hprod
    exact ⟨hlen.symm, hpos, hprod.symm, hpinned.mpr hpin⟩

theorem rowAt_natCast {t : FactorTable} {i : ℕ} (hi : i < t.size) :
    t.rowAt (.int i) = .ok (t.row i) := by
  rw [rowAt, Value.placeIn_natCast hi]
  rfl

theorem hasLevel_int (t : FactorTable) (level : ℤ) :
    t.hasLevel (.int level) = .ok (decide (0 ≤ level) && decide (level < t.levelCount.toInt)) := by
  have hnumber : (Value.int level).asNumber = .ok (.int level) := rfl
  rw [hasLevel, hnumber, ok_bind, Number.nonneg_int, Number.less_int]
  rfl

theorem factorIn_natCast {t : FactorTable} {row : List ℕ} (hlen : t.levelCount.toInt = row.length)
    {level : ℕ} (hlevel : level < row.length) : t.factorIn row (.int level) = .ok row[level] := by
  have hin : t.hasLevel (.int level) = .ok true := by
    rw [hasLevel_int, hlen]
    simp [hlevel]
  unfold factorIn
  rw [hin, ok_bind]
  simp [Value.index?, hlevel, pure, Except.pure]

theorem factorIn_out_of_range {t : FactorTable} {row : List ℕ}
    (hlen : t.levelCount.toInt = row.length) {level : ℤ} (hlevel : level < 0 ∨ row.length ≤ level) :
    t.factorIn row (.int level) = .error (.factorLevel (.int level) t.levelCount) := by
  have hout : t.hasLevel (.int level) = .ok false := by
    rw [hasLevel_int, hlen]
    simp only [Except.ok.injEq, Bool.and_eq_false_iff, decide_eq_false_iff_not]
    omega
  unfold factorIn
  rw [hout, ok_bind]
  rfl

/-- Whether a table has the factorizations of its bound that agree with its pins, and there are some.
-/
structure Sound (t : FactorTable) : Prop where
  bound_pos : 0 < t.bound.toInt
  levelCount_pos : 0 < t.levelCount.toInt
  pinsFit : PinsFit t.levelCount.toInt.toNat t.pins
  product_dvd : pinProduct t.pins ∣ t.bound.toInt.toNat
  product_eq : t.pins.length = t.levelCount.toInt.toNat →
    pinProduct t.pins = t.bound.toInt.toNat
  rows : t.rows = tabulate t.bound.toInt.toNat t.levelCount.toInt.toNat t.pins

theorem Sound.bijOn_row {t : FactorTable} (h : t.Sound) : Set.BijOn t.row (Set.Iio t.size)
    {fs | IsFactorization t.bound.toInt.toNat t.levelCount.toInt.toNat t.pins fs} :=
  bijOn_row_of_tabulate h.rows (Int.lt_toNat.mpr h.bound_pos) h.pinsFit h.product_dvd

theorem Sound.size_pos {t : FactorTable} (h : t.Sound) : 0 < t.size := by
  obtain ⟨fs, hfs⟩ := (exists_isFactorization_iff (Int.lt_toNat.mpr h.bound_pos) h.pinsFit).mpr
    ⟨h.product_dvd, h.product_eq⟩
  obtain ⟨i, hi, -⟩ := h.bijOn_row.surjOn hfs
  exact Nat.zero_lt_of_lt hi

/-- Whether a table has the bound, the number of levels and the pins that values give. -/
structure ReadsFrom (bound levelCount pinned : Value) (t : FactorTable) : Prop where
  bound : bound.index? = some t.bound.toInt
  levelCount : levelCount.index? = some t.levelCount.toInt
  pins : ∃ es, givenPins pinned = .ok es ∧ List.Forall₂ IsPin es t.pins

variable [Text.DigitLimit] {b n : Numeral}

theorem isPin_of_checkPin {e : Value × Value} {p : ℕ × ℕ} (h : checkPin b n e = .ok p) :
    IsPin e p ∧ (p.1 : ℤ) < n.toInt ∧ 0 < p.2 := by
  simp only [checkPin, bind_eq_ok, refuse_eq_ok, pure_eq_ok, not_or, not_lt, not_le] at h
  obtain ⟨level, hlevel, _, -, factor, hfactor, ⟨hnonneg, hlt⟩, hpos, -, rfl⟩ := h
  have hl : (level.toNat : ℤ) = level := Int.toNat_of_nonneg hnonneg
  have hf : (factor.toNat : ℤ) = factor := Int.toNat_of_nonneg (by omega)
  refine ⟨⟨?_, ?_⟩, ?_, ?_⟩
  · rw [hl]
    exact index?_of_pinPart hlevel
  · rw [hf]
    exact index?_of_pinPart hfactor
  · rwa [hl]
  · exact Int.lt_toNat.mpr hpos

theorem ofValues_eq (bound levelCount pinned : Value) : ofValues bound levelCount pinned = do
    let b ← positive .factorBound bound
    let n ← positive .factorLevelCount levelCount
    let given ← givenPins pinned
    let pins ← given.mapM (checkPin b n)
    checkPins b n pins
    return ⟨b, n, pins, tabulate b.toInt.toNat n.toInt.toNat pins⟩ := by
  unfold ofValues givenPins
  cases pinned.truthy <;> rfl

theorem sound_of_ofValues {bound levelCount pinned : Value} {t : FactorTable}
    (hd : pinned.KeysDiffer) (h : ofValues bound levelCount pinned = .ok t) :
    t.Sound ∧ ReadsFrom bound levelCount pinned t := by
  simp only [ofValues_eq, bind_eq_ok, pure_eq_ok] at h
  obtain ⟨b, hb, n, hn, es, hes, pins, hpins, _, hcheck, rfl⟩ := h
  obtain ⟨k, hk, hbk, hkpos⟩ := index?_of_positive hb
  obtain ⟨count, hcount, hncount, hnpos⟩ := index?_of_positive hn
  obtain ⟨hdvd, hfull⟩ := (checkPins_eq_ok hbk hncount).mp hcheck
  have hpin := (mapM_eq_ok.mp hpins).imp fun _ _ hp => isPin_of_checkPin hp
  have hall : List.Forall₂ IsPin es pins := hpin.imp fun _ _ hp => hp.1
  have hfit : PinsFit count pins := by
    refine ⟨?_, fun p hp => ?_, fun p hp => ?_⟩
    · apply nodup_of_isPin hall
      rcases givenPins_eq_ok hes with hmap | ⟨rfl, -⟩
      · exact hd es hmap
      · exact List.Pairwise.nil
    · obtain ⟨e, -, hep⟩ := exists_of_forall₂ hpin.flip hp
      omega
    · obtain ⟨e, -, hep⟩ := exists_of_forall₂ hpin.flip hp
      exact hep.2.2
  have hbpos : 0 < b.toInt := by omega
  have hcountpos : 0 < n.toInt := by omega
  have hbound : b.toInt.toNat = k := by rw [hbk, Int.toNat_natCast]
  have hlevels : n.toInt.toNat = count := by rw [hncount, Int.toNat_natCast]
  refine ⟨⟨hbpos, hcountpos, ?_, ?_, ?_, rfl⟩, by rw [hk, hbk], by rw [hcount, hncount], es, hes,
    hall⟩
  · rwa [hlevels]
  · rwa [hbound]
  · rwa [hbound, hlevels]

structure IsTable (bound levelCount pinned : Value) (t : FactorTable) : Prop where
  index? : levelCount.index? = some t.levelCount.toInt
  size_pos : 0 < t.size
  bijOn_row : Set.BijOn t.row (Set.Iio t.size) {fs | Fits bound levelCount pinned fs}

theorem isTable_of_ofValues {bound levelCount pinned : Value} {t : FactorTable}
    (hd : pinned.KeysDiffer) (h : ofValues bound levelCount pinned = .ok t) :
    IsTable bound levelCount pinned t := by
  obtain ⟨hsound, hbound, hcount, es, hes, hall⟩ := sound_of_ofValues hd h
  have hb : (t.bound.toInt.toNat : ℤ) = t.bound.toInt := Int.toNat_of_nonneg hsound.bound_pos.le
  have hn : (t.levelCount.toInt.toNat : ℤ) = t.levelCount.toInt :=
    Int.toNat_of_nonneg hsound.levelCount_pos.le
  have hset : {fs | IsFactorization t.bound.toInt.toNat t.levelCount.toInt.toNat t.pins fs} =
      {fs | Fits bound levelCount pinned fs} :=
    Set.ext fun _ => isFactorization_iff_fits (hb ▸ hbound) (hn ▸ hcount) hes hall
  exact ⟨hcount, hsound.size_pos, hset ▸ hsound.bijOn_row⟩

/-- A level out of range is a fault of an index, if the level and the number of levels can be shown.
-/
theorem kind_factorLevel {level : ℤ} {count : Numeral} (hlevel : Text.isShort level)
    (hcount : Text.isShort count.toInt) : (Fault.factorLevel (.int level) count).kind = .index := by
  have hshown : count.text?.isSome := Numeral.isSome_text?_of_isShort hcount
  have hsentence : (Fault.factorLevel (.int level) count).sentence?.isSome := by
    apply Fault.isSome_said
    simp [hshown, Value.text?, Value.quoted?, Text.decimal?, hlevel]
  rw [Fault.kind, if_pos hsentence]
  rfl

end FactorTable

end LoopTiling
