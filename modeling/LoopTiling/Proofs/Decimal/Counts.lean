import LoopTiling.Proofs.Decimal.Scientific
import LoopTiling.Proofs.Outcome
import LoopTiling.Value.Count

/-!
# The text of a large count

From one million on a count is written in scientific notation, if it and the number of places can be shown.
The notation is normalised exactly if the count stays below ten when it is rounded; if it does not, the text
is ten with zeros behind the point, and the exponent is one less than that of a normalised text.
-/
namespace LoopTiling

namespace Value

open Decimal

theorem foldlM_digitValue? {cs : List Char} (hcs : ∀ c ∈ cs, c.isDigit) (value : ℕ) :
    cs.foldlM (fun n d => (Text.digitValue? d).map fun digit => 10 * n + digit) value =
      some (Nat.ofDigitChars 10 cs value) := by
  induction cs generalizing value with
  | nil => rfl
  | cons c cs ih =>
    rw [List.forall_mem_cons] at hcs
    rw [List.foldlM_cons, Text.digitValue?_of_isDigit hcs.1, Option.map_some, Option.bind_eq_bind,
      Option.bind_some, ih hcs.2, Nat.ofDigitChars_cons]

theorem digitsValue?_toDigits (n : ℕ) : digitsValue? (Nat.toDigits 10 n) = some n := by
  obtain ⟨c, rest, hcons⟩ := List.exists_cons_of_ne_nil (Nat.toDigits_ne_nil (n := n) (b := 10))
  have hdigits : ∀ c ∈ Nat.toDigits 10 n, c.isDigit := fun _ => Text.isDigit_toDigits
  have hvalue := foldlM_digitValue? hdigits 0
  rw [Nat.ofDigitChars_ten_toDigits] at hvalue
  rw [hcons] at hvalue ⊢
  exact hvalue

section Shown

variable [Text.DigitLimit]

/-- A number of places can be used if it can be shown and is not too large. -/
theorem places_natCast (p : ℕ) : (int p).places =
    if Text.isShort p ∧ p ≤ maxPlaces then .ok p else .error (.unsupported .value) := by
  have htext : (int p).text? = (int p).quoted? := rfl
  have hread : digitsValue? (toString (p : ℤ)).toList = some p := by
    rw [Text.toList_natCast, digitsValue?_toDigits]
  rw [places, htext, quoted?, Text.decimal?]
  by_cases hshort : Text.isShort p
  · rw [if_pos hshort, Option.bind_some, hread]
    by_cases hmost : p ≤ maxPlaces
    · rw [if_pos ⟨hshort, hmost⟩]
      exact if_pos hmost
    · rw [if_neg fun h => hmost h.2]
      exact if_neg hmost
  · rw [if_neg hshort, if_neg fun h => hshort h.1]
    rfl

/-- Whether a large count can be written with a number of places. -/
structure CountShown (n : ℤ) (places : ℕ) : Prop where
  isShort_count : Text.isShort n
  isShort_places : Text.isShort places
  places_le : places ≤ maxPlaces

variable {n : ℤ} {places : ℕ}

theorem countText_of_shown (hn : exactBelow ≤ n.natAbs) (h : CountShown n places) :
    countText (.int n) (.int places) = .ok (scientific places (mantissa n) (magnitude n)) := by
  have hlarge : ¬ n.natAbs < exactBelow := Nat.not_lt_of_le hn
  have hplaces : (int places).places = .ok places := by
    rw [places_natCast, if_pos ⟨h.isShort_places, h.places_le⟩]
  have htext : Decimal.countText? places n = some (scientific places (mantissa n) (magnitude n)) := by
    rw [countText?, if_neg hlarge, if_pos h.isShort_count]
  have hcount : countText (.int n) (.int places) = intCountText n (.int places) := rfl
  rw [hcount, intCountText, h.isShort_count, decide_eq_false hlarge, hplaces]
  simp only [Bool.not_true, Bool.or_self, Bool.false_eq_true, if_false, ok_bind]
  rw [htext]
  rfl

theorem countText_of_not_shown (hn : exactBelow ≤ n.natAbs) (h : ¬ CountShown n places) :
    countText (.int n) (.int places) = .error (.unsupported .value) := by
  have hlarge : ¬ n.natAbs < exactBelow := Nat.not_lt_of_le hn
  have hcount : countText (.int n) (.int places) = intCountText n (.int places) := rfl
  rw [hcount, intCountText, decide_eq_false hlarge, Bool.false_or]
  by_cases hshort : Text.isShort n
  · have hplaces : (int places).places = .error (.unsupported .value) := by
      rw [places_natCast, if_neg fun hp => h ⟨hshort, hp.1, hp.2⟩]
    rw [hshort, hplaces]
    rfl
  · rw [Bool.eq_false_iff.mpr hshort]
    have hgrouped : Text.grouped? n = none := by
      rw [Text.grouped?, if_neg hshort]
    rw [hgrouped]
    rfl

/-- The text of a count from one million on, with one place at least. It is refused exactly if the count or
the number of places cannot be shown. Else it is the scientific notation of the count, normalised exactly if
the count stays below ten; if not, it is ten with zeros behind the point. -/
theorem countText_scientific (hn : 10 ^ 6 ≤ n.natAbs) (hplaces : 1 ≤ places) :
    (¬ CountShown n places → countText (.int n) (.int places) = .error (.unsupported .value)) ∧
    (CountShown n places → ∃ t : Scientific, countText (.int n) (.int places) = .ok t.text ∧
      t.IsCount n places ∧ (IsNormalText places t.text ↔ StaysBelowTen n places) ∧
      (¬ StaysBelowTen n places → t.whole = ['1', '0'] ∧ t.fraction = List.replicate places '0')) := by
  refine ⟨countText_of_not_shown hn, fun hshown => ?_⟩
  have hne : n ≠ 0 := by
    rintro rfl
    exact absurd hn (by decide)
  obtain ⟨t, htext, hcount, hnormal, hten⟩ := exists_isCount hne hplaces
  refine ⟨t, htext ▸ countText_of_shown hn hshown, hcount, ⟨fun h => ?_, fun h => ⟨t, hnormal h, rfl⟩⟩,
    hten⟩
  by_contra hnot
  exact not_isNormalText_ten (hten hnot).1 h

end Shown

/-- One count that stays below ten and one that does not. -/
theorem countText_scientific_sample :
    (countText (.int 12345678) (.int 2) = .ok "1.23e+07" ∧ IsNormalText 2 "1.23e+07") ∧
    ∃ t : Scientific, countText (.int (-99999999)) (.int 3) = .ok t.text ∧
      t.whole = ['1', '0'] ∧ t.fraction = ['0', '0', '0'] := by
  have hlog : Nat.log 10 (12345678 : ℤ).natAbs = 7 :=
    (Nat.log_eq_iff (.inl (by decide))).mpr ⟨by decide, by decide⟩
  have hlog' : Nat.log 10 (-99999999 : ℤ).natAbs = 7 :=
    (Nat.log_eq_iff (.inl (by decide))).mpr ⟨by decide, by decide⟩
  have hstays : StaysBelowTen 12345678 2 := by
    rw [StaysBelowTen, hlog]
    decide +kernel
  have hten : ¬ StaysBelowTen (-99999999) 3 := by
    rw [StaysBelowTen, hlog']
    decide +kernel
  have hshown : CountShown 12345678 2 := ⟨by decide +kernel, by decide +kernel, by decide⟩
  have hshown' : CountShown (-99999999) 3 := ⟨by decide +kernel, by decide +kernel, by decide⟩
  have hcomputed : countText (.int 12345678) (.int 2) = .ok "1.23e+07" :=
    eq_ok_of_toOption (by decide +kernel)
  obtain ⟨t, htext, -, hnormal, -⟩ := (countText_scientific (by decide) (by decide)).2 hshown
  obtain ⟨u, hutext, -, -, hzeros⟩ := (countText_scientific (by decide) (by decide)).2 hshown'
  have hread : t.text = "1.23e+07" := Except.ok.inj (htext.symm.trans hcomputed)
  exact ⟨⟨hcomputed, hread ▸ hnormal.mpr hstays⟩, u, hutext, hzeros hten⟩

/-- A count just below a power of ten is rounded up to ten, and its exponent stays. -/
theorem countText_rounded_up :
    10 ^ 6 ≤ (9999999 : ℤ).natAbs ∧ countText (.int 9999999) (.int 2) = .ok "10.00e+06" ∧
      ¬ IsNormalText 2 "10.00e+06" := by
  have hten : "10.00e+06" = Scientific.text ⟨false, ['1', '0'], ['0', '0'], ['0', '6']⟩ := by
    decide +kernel
  refine ⟨by decide, eq_ok_of_toOption (by decide +kernel), ?_⟩
  rw [hten]
  exact not_isNormalText_ten rfl

end Value

end LoopTiling
