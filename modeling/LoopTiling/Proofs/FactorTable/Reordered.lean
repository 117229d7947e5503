import LoopTiling.Proofs.FactorTable.Refusals

/-!
# The order and the writing of what a table is built from

A table asked for with the pins in another order, or with an integer written in another form, has the
same rows. If one of two such requests is accepted, then so is the other.
-/
namespace LoopTiling

theorem lookup_perm {α β : Type*} [BEq α] [LawfulBEq α] {es fs : List (α × β)} (h : es.Perm fs)
    (hd : (es.map Prod.fst).Nodup) (a : α) : es.lookup a = fs.lookup a := by
  have hd' : (fs.map Prod.fst).Nodup := (h.map Prod.fst).nodup_iff.mp hd
  ext b
  rw [lookup_eq_some_iff_mem hd, lookup_eq_some_iff_mem hd', h.mem_iff]

namespace Value

/-- Whether two values are the same, or stand for the same integer. -/
def SameInteger (v w : Value) : Prop :=
  v = w ∨ ∃ m n : Numeral, v = m.toValue ∧ w = n.toValue ∧ m.toInt = n.toInt

/-- Whether two values are the same, or stand for the same whole number, be it an integer or a word. -/
def SameWhole (v w : Value) : Prop := v = w ∨ ∃ i, v.IsWhole i ∧ w.IsWhole i

variable {v w : Value}

theorem SameInteger.symm (h : v.SameInteger w) : w.SameInteger v := by
  rcases h with rfl | ⟨m, n, hv, hw, heq⟩
  · exact .inl rfl
  · exact .inr ⟨n, m, hw, hv, heq.symm⟩

theorem SameWhole.symm (h : v.SameWhole w) : w.SameWhole v :=
  h.imp Eq.symm fun hi => hi.imp fun _ => And.symm

theorem SameWhole.isWhole {i : ℤ} (h : v.SameWhole w) (hv : v.IsWhole i) : w.IsWhole i := by
  rcases h with rfl | ⟨j, hj, hw⟩
  · exact hv
  · rwa [hj.unique hv]

theorem SameWhole.index?_eq (h : v.SameWhole w) : v.index? = w.index? := by
  rcases h with rfl | ⟨i, hv, hw⟩
  · rfl
  · rw [hv.1, hw.1]

theorem SameInteger.canShow [Text.DigitLimit] (h : v.SameInteger w) (hw : w.CanShow) : v.CanShow := by
  rcases h with rfl | ⟨m, n, rfl, rfl, heq⟩
  · exact hw
  · exact canShow_toValue (heq ▸ hw.whole n (numeral?_toValue n))

end Value

namespace FactorTable

variable {b b' n n' : Numeral} {es fs : List (Value × Value)}
  {pins pins' : List (ℕ × ℕ)}

theorem positive_of_sameInteger {fault : Value → Fault} {v w : Value} (h : v.SameInteger w)
    (hv : positive fault v = .ok n) : ∃ n', positive fault w = .ok n' ∧ n'.toInt = n.toInt := by
  rcases h with rfl | ⟨k, k', rfl, rfl, heq⟩
  · exact ⟨n, hv, rfl⟩
  · obtain ⟨hpos, rfl⟩ := positive_toValue.mp hv
    exact ⟨k', positive_toValue.mpr ⟨heq ▸ hpos, rfl⟩, heq.symm⟩

/-- Whether two entries pin the same level to the same factor. -/
structure SamePin (e f : Value × Value) : Prop where
  level : e.1.SameWhole f.1
  factor : e.2.SameWhole f.2

theorem SamePin.symm {e f : Value × Value} (h : SamePin e f) : SamePin f e :=
  ⟨h.level.symm, h.factor.symm⟩

/-- Whether entries pin the same levels to the same factors, in any order. -/
def SamePins (es fs : List (Value × Value)) : Prop :=
  Relation.Comp List.Perm (List.Forall₂ SamePin) es fs

theorem SamePins.refl (es : List (Value × Value)) : SamePins es es :=
  ⟨es, .refl es, List.forall₂_same.mpr fun _ _ => ⟨.inl rfl, .inl rfl⟩⟩

theorem SamePins.symm (h : SamePins es fs) : SamePins fs es := by
  obtain ⟨gs, hperm, hall⟩ := h
  have hcomp : Relation.Comp (List.Forall₂ SamePin) List.Perm fs es :=
    ⟨gs, (hall.imp fun _ _ => SamePin.symm).flip, hperm.symm⟩
  rwa [List.forall₂_comp_perm_eq_perm_comp_forall₂] at hcomp

theorem SamePins.exists_samePin (h : SamePins es fs) {e : Value × Value} (he : e ∈ es) :
    ∃ f ∈ fs, SamePin e f := by
  obtain ⟨gs, hperm, hall⟩ := h
  exact exists_of_forall₂ hall (hperm.mem_iff.mp he)

theorem SamePins.factorProduct_eq (h : SamePins es fs) : factorProduct es = factorProduct fs := by
  obtain ⟨gs, hperm, hall⟩ := h
  rw [factorProduct, (hperm.map _).prod_eq, factorProduct]
  congr 1
  clear hperm
  induction hall with
  | nil => rfl
  | cons hsame _ ih => rw [List.map_cons, List.map_cons, hsame.factor.index?_eq, ih]

theorem pinProduct_perm (h : pins.Perm pins') : pinProduct pins = pinProduct pins' := by
  induction h with
  | nil => rfl
  | cons p _ ih => rw [pinProduct, pinProduct, ih]
  | swap p q pins => rw [pinProduct, pinProduct, pinProduct, pinProduct, Nat.mul_left_comm]
  | trans _ _ ih ih' => rw [ih, ih']

/-- The rows do not depend on the order of the pins. -/
theorem tabulate_perm (h : pins.Perm pins') (hd : (pins.map Prod.fst).Nodup)
    (bound levelCount : ℕ) : tabulate bound levelCount pins = tabulate bound levelCount pins' := by
  have hslots : slots levelCount pins = slots levelCount pins' :=
    List.map_congr_left fun level _ => lookup_perm h hd level
  rw [tabulate, tabulate, hslots, pinProduct_perm h]

theorem checkPins_perm (h : pins'.Perm pins) (hb : b'.toInt = b.toInt) (hn : n'.toInt = n.toInt)
    (hpos : 0 < b.toInt) (hcount : 0 < n.toInt) (hok : checkPins b n pins = .ok ()) :
    checkPins b' n' pins' = .ok () := by
  have hbound : b.toInt = (b.toInt.toNat : ℤ) := (Int.toNat_of_nonneg hpos.le).symm
  have hlevels : n.toInt = (n.toInt.toNat : ℤ) := (Int.toNat_of_nonneg hcount.le).symm
  rw [checkPins_eq_ok (hb.trans hbound) (hn.trans hlevels), h.length_eq, pinProduct_perm h]
  exact (checkPins_eq_ok hbound hlevels).mp hok

/-- Whether a table is the one of the same bound, number of levels and pins, in any order. -/
structure Agrees (t t' : FactorTable) : Prop where
  bound : t'.bound.toInt = t.bound.toInt
  levelCount : t'.levelCount.toInt = t.levelCount.toInt
  pins : t'.pins.Perm t.pins

variable [Text.DigitLimit]

theorem isWholePin_of_checkPin {e : Value × Value} {p : ℕ × ℕ} (h : checkPin b n e = .ok p) :
    ∃ q, IsWholePin e q := by
  simp only [checkPin, bind_eq_ok] at h
  obtain ⟨level, hlevel, _, -, factor, hfactor, -⟩ := h
  exact ⟨(level, factor), isWhole_of_pinPart hlevel, isWhole_of_pinPart hfactor⟩

theorem checkPin_of_samePin {e f : Value × Value} (h : SamePin e f) (hb : b'.toInt = b.toInt)
    (hn : n'.toInt = n.toInt) {p : ℕ × ℕ} (he : checkPin b n e = .ok p) :
    checkPin b' n' f = .ok p := by
  obtain ⟨q, hq⟩ := isWholePin_of_checkPin he
  rw [checkPin_eq_ok (h.level.isWhole hq.level) (h.factor.isWhole hq.factor), hb, hn]
  exact (checkPin_eq_ok hq.level hq.factor).mp he

theorem exists_mapM_checkPin (h : SamePins es fs) (hb : b'.toInt = b.toInt)
    (hn : n'.toInt = n.toInt) (hes : es.mapM (checkPin b n) = .ok pins) :
    ∃ pins', fs.mapM (checkPin b' n') = .ok pins' ∧ pins'.Perm pins := by
  obtain ⟨gs, hperm, hall⟩ := h
  obtain ⟨pins', hgs, hpins⟩ := List.perm_comp_forall₂ hperm.symm (mapM_eq_ok.mp hes)
  refine ⟨pins', mapM_eq_ok.mpr ?_, hpins⟩
  clear hperm hpins hes
  induction hall generalizing pins' with
  | nil =>
    cases hgs
    exact .nil
  | cons hsame _ ih =>
    cases hgs with
    | cons hp hrest => exact .cons (checkPin_of_samePin hsame hb hn hp) (ih _ hrest)

section Requests

variable {bound levelCount pinned bound' levelCount' pinned' : Value} {t : FactorTable}

/-- What can be shown of a request can be shown of it in every order and writing. -/
theorem Shows.of_same (hbound : bound.SameInteger bound')
    (hcount : levelCount.SameInteger levelCount') (hpins : SamePins es fs)
    (h : Shows bound' levelCount' fs) : Shows bound levelCount es := by
  refine ⟨hbound.canShow h.bound, hcount.canShow h.levelCount, fun e he i hi => ?_,
    hpins.factorProduct_eq ▸ h.product⟩
  obtain ⟨f, hf, hsame⟩ := hpins.exists_samePin he
  exact h.pins f hf i (hi.imp hsame.level.isWhole hsame.factor.isWhole)

theorem rows_of_ofValues (h : ofValues bound levelCount pinned = .ok t) :
    t.rows = tabulate t.bound.toInt.toNat t.levelCount.toInt.toNat t.pins := by
  simp only [ofValues_eq, bind_eq_ok, pure_eq_ok] at h
  obtain ⟨b, -, n, -, es, -, pins, -, -, -, rfl⟩ := h
  rfl

theorem exists_agrees (hbound : bound.SameInteger bound') (hcount : levelCount.SameInteger levelCount')
    (hes : givenPins pinned = .ok es) (hfs : givenPins pinned' = .ok fs) (hpins : SamePins es fs)
    (h : ofValues bound levelCount pinned = .ok t) :
    ∃ t', ofValues bound' levelCount' pinned' = .ok t' ∧ t.Agrees t' := by
  simp only [ofValues_eq, hes, ok_bind, bind_eq_ok, pure_eq_ok] at h
  obtain ⟨b, hb, n, hn, pins, hgiven, _, hcheck, rfl⟩ := h
  obtain ⟨k, -, hk, hkpos⟩ := index?_of_positive hb
  obtain ⟨count, -, hc, hcpos⟩ := index?_of_positive hn
  obtain ⟨b', hb', hbb⟩ := positive_of_sameInteger hbound hb
  obtain ⟨n', hn', hnn⟩ := positive_of_sameInteger hcount hn
  obtain ⟨pins', hgiven', hperm⟩ := exists_mapM_checkPin hpins hbb hnn hgiven
  have hcheck' := checkPins_perm hperm hbb hnn (by omega) (by omega) hcheck
  refine ⟨⟨b', n', pins', tabulate b'.toInt.toNat n'.toInt.toNat pins'⟩, ?_, hbb, hnn, hperm⟩
  simp only [ofValues_eq, hfs, ok_bind, bind_eq_ok, pure_eq_ok]
  exact ⟨b', hb', n', hn', pins', hgiven', (), hcheck', rfl⟩

/-- A request that is accepted is accepted in every order and writing, with the same rows. -/
theorem exists_rows_eq (hbound : bound.SameInteger bound')
    (hcount : levelCount.SameInteger levelCount') (hes : givenPins pinned = .ok es)
    (hfs : givenPins pinned' = .ok fs) (hpins : SamePins es fs) (hd : pinned.KeysDiffer)
    (h : ofValues bound levelCount pinned = .ok t) :
    ∃ t', ofValues bound' levelCount' pinned' = .ok t' ∧ t'.rows = t.rows := by
  obtain ⟨t', ht', hagrees⟩ := exists_agrees hbound hcount hes hfs hpins h
  refine ⟨t', ht', ?_⟩
  have hnodup := (sound_of_ofValues hd h).1.pinsFit.nodup
  rw [rows_of_ofValues ht', rows_of_ofValues h, hagrees.bound, hagrees.levelCount,
    tabulate_perm hagrees.pins.symm hnodup]

end Requests

end FactorTable

end LoopTiling
