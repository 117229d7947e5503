import LoopTiling.Proofs.FactorTable.Values
import LoopTiling.Proofs.Faults

/-!
# What a factor table is refused for

A table is refused as an invalid configuration, with a sentence that shows the bound, the number of
levels, a pin or the product of the pins. If what it would show has too many digits, then the fault is
that of the number.
-/
namespace LoopTiling

variable [limit : Text.DigitLimit]

namespace Fault

/-- Whether a fault refuses a configuration, with a sentence if nothing stands against showing it, or is
the fault of what cannot be shown. -/
def Refuses (shows : Prop) (fault : Fault) : Prop :=
  (fault.causeKind = .configuration ∧ (shows → fault.sentence?.isSome)) ∨ fault.Unshown shows

section Refuses

variable {shows shows' : Prop} {fault : Fault}

theorem Refuses.mono (h : fault.Refuses shows) (himp : shows' → shows) : fault.Refuses shows' :=
  h.imp (fun hf => ⟨hf.1, fun hs => hf.2 (himp hs)⟩) fun hf => ⟨fun hs => hf.1 (himp hs), hf.2⟩

/-- A refusal has the kind of an invalid configuration, unless something stands against showing it. -/
theorem Refuses.kind_cases (h : fault.Refuses shows) :
    fault.kind = .configuration ∨ fault.kind = .value ∧ ¬ shows := by
  by_cases hshows : shows
  · rcases h with ⟨hcause, hsentence⟩ | ⟨hnot, -⟩
    · exact .inl (by rw [kind, if_pos (hsentence hshows), hcause])
    · exact absurd hshows hnot
  · rcases h with ⟨hcause, -⟩ | ⟨-, rfl⟩
    · rw [kind]
      split
      · exact .inl hcause
      · exact .inr ⟨rfl, hshows⟩
    · exact .inr ⟨rfl, hshows⟩

end Refuses

/-- Whether a fault refuses a configuration with a sentence that shows certain whole numbers only, or is
the fault of such a number that cannot be shown. -/
def RefusesShowing (shows : List ℤ) (fault : Fault) : Prop :=
  (fault.causeKind = .configuration ∧
    ((∀ n ∈ shows, Text.isShort n) → fault.sentence?.isSome)) ∨
  fault.Unshown (∀ n ∈ shows, Text.isShort n)

/-- The kind that a refusal of a configuration has, unless a number that it shows has too many digits. -/
def RefusesConfiguration (shows : List ℤ) (fault : Fault) : Prop :=
  fault.kind = .configuration ∨ fault.kind = .value ∧ ∃ n ∈ shows, ¬ Text.isShort n

variable {shows : List ℤ} {fault : Fault}

theorem RefusesShowing.refusesConfiguration (h : fault.RefusesShowing shows) :
    fault.RefusesConfiguration shows := by
  refine (Refuses.kind_cases h).imp_right fun hvalue => ⟨hvalue.1, ?_⟩
  simpa only [not_forall, exists_prop] using hvalue.2

theorem RefusesShowing.unshown (h : fault.RefusesShowing shows) :
    fault.causeKind = .configuration ∨ fault.OfLimit := by
  rcases h with ⟨hcause, -⟩ | ⟨hlong, hfault⟩
  · exact .inl hcause
  · exact .inr ⟨fun hnone => hlong fun n _ => Text.isShort_of_unlimited hnone n, hfault⟩

theorem RefusesShowing.answerable (h : fault.RefusesShowing shows) : fault.Answerable := by
  rcases h.unshown with hcause | hlimit
  · exact .inl hcause
  · exact .inr (.inr (.inr hlimit))

end Fault

namespace FactorTable

/-- The whole numbers that a refusal may show: the bound, the number of levels, the product of the pinned
factors, and the levels and factors themselves. -/
def mentioned (bound levelCount : ℤ) (pins : List (ℤ × ℤ)) : List ℤ :=
  bound :: levelCount :: (pins.map Prod.snd).prod :: pins.flatMap fun p => [p.1, p.2]

variable {b n : Numeral} {es : List (Value × Value)} {pins : List (ℤ × ℤ)}

omit limit in
theorem pinProduct_toNats (hpins : ∀ p ∈ pins, 0 < p.2) :
    (pinProduct (toNats pins) : ℤ) = (pins.map Prod.snd).prod := by
  induction pins with
  | nil => rfl
  | cons p pins ih =>
    rw [List.forall_mem_cons] at hpins
    have hfactor : (p.2.toNat : ℤ) = p.2 := Int.toNat_of_nonneg hpins.1.le
    rw [List.map_cons, List.prod_cons, ← ih hpins.2, toNats, List.map_cons, pinProduct, Nat.cast_mul,
      hfactor, toNats]

omit limit in
theorem failsOnly_positive {P : Fault → Prop} {fault : Value → Fault} {v : Value}
    (h : P (fault v)) : FailsOnly P (positive fault v) := by
  rw [positive]
  split
  · exact .ite (fun _ => failsOnly_error h) fun _ => failsOnly_ok _
  · exact failsOnly_error h

/-- The product of the factors that entries pin. -/
def factorProduct (es : List (Value × Value)) : ℤ := (es.map fun e => e.2.index?.getD 0).prod

/-- Whether all that a refusal may show can be shown: the bound, the number of levels, the whole numbers
among the pins and their product. -/
structure Shows (bound levelCount : Value) (es : List (Value × Value)) : Prop where
  bound : bound.CanShow
  levelCount : levelCount.CanShow
  pins : ∀ e ∈ es, ∀ i, e.1.IsWhole i ∨ e.2.IsWhole i → Text.isShort i
  product : Text.isShort (factorProduct es)

omit limit in
theorem pinProduct_eq_factorProduct {given : List (ℕ × ℕ)} (h : List.Forall₂ IsPin es given) :
    (pinProduct given : ℤ) = factorProduct es := by
  induction h with
  | nil => rfl
  | @cons e p es given hep _ ih =>
    rw [factorProduct] at ih
    rw [pinProduct, Nat.cast_mul, ih, factorProduct, List.map_cons, List.prod_cons, hep.factor,
      Option.getD_some]

section Values

variable {shows : Prop} {e : Value × Value}

theorem failsOnly_pinPart {what : String} {v : Value} :
    FailsOnly (Fault.Refuses shows) (pinPart what v) := by
  rw [pinPart]
  split
  · exact failsOnly_ok _
  · exact failsOnly_error (.inl ⟨rfl, fun _ => rfl⟩)

theorem failsOnly_checkPin (hb : shows → Text.isShort b.toInt) (hn : shows → Text.isShort n.toInt)
    (he : shows → ∀ i, e.1.IsWhole i ∨ e.2.IsWhole i → Text.isShort i) :
    FailsOnly (Fault.Refuses shows) (checkPin b n e) := by
  refine failsOnly_pinPart.bind fun level hlevel => ?_
  have hlevel' (hs : shows) : Text.isShort level := he hs level (.inl (isWhole_of_pinPart hlevel))
  have hplace : FailsOnly (Fault.Refuses shows) (shown (Text.decimal? level)) :=
    (failsOnly_shown fun hs => (Text.isSome_decimal?_iff level).mpr (hlevel' hs)).mono fun _ => .inr
  refine hplace.bind fun _ _ => failsOnly_pinPart.bind fun factor hfactor => ?_
  have hfactor' (hs : shows) : Text.isShort factor := he hs factor (.inr (isWhole_of_pinPart hfactor))
  refine .refuse (.inl ⟨rfl, fun hs => Fault.isSome_said ?_⟩) fun _ =>
    .refuse (.inl ⟨rfl, fun hs => Fault.isSome_said ?_⟩) fun _ =>
    .refuse (.inl ⟨rfl, fun hs => Fault.isSome_said ?_⟩) fun _ => failsOnly_ok _
  all_goals
    simp [Text.isSome_decimal?_iff, Numeral.isSome_text?_of_isShort, hlevel' hs, hfactor' hs, hb hs, hn hs]

theorem failsOnly_checkPins {given : List (ℕ × ℕ)} (hb : shows → Text.isShort b.toInt)
    (hn : shows → Text.isShort n.toInt) (hproduct : shows → Text.isShort (pinProduct given)) :
    FailsOnly (Fault.Refuses shows) (checkPins b n given) := by
  refine .refuse (.inl ⟨rfl, fun hs => Fault.isSome_said ?_⟩) fun _ =>
    .ite (fun _ => failsOnly_error (.inl ⟨rfl, fun hs => Fault.isSome_said ?_⟩)) fun _ =>
    failsOnly_ok _
  all_goals
    simp [Text.isSome_decimal?_iff, Numeral.isSome_text?_of_isShort, hproduct hs, hb hs, hn hs]

/-- Whatever a table is asked for with pins that are a map or none, it is refused as an invalid
configuration only, or cannot be shown. -/
theorem failsOnly_ofValues {bound levelCount pinned : Value} (hes : givenPins pinned = .ok es) :
    FailsOnly (Fault.Refuses (Shows bound levelCount es)) (ofValues bound levelCount pinned) := by
  rw [ofValues_eq]
  refine .bind (failsOnly_positive (.inl ⟨rfl, fun h => Fault.isSome_said ?_⟩)) fun b hb =>
    .bind (failsOnly_positive (.inl ⟨rfl, fun h => Fault.isSome_said ?_⟩)) fun n hn => ?_
  · simp [h.bound.quoted]
  · simp [h.levelCount.quoted]
  rw [hes, ok_bind]
  have hbound (h : Shows bound levelCount es) := h.bound.whole b (positive_eq_ok.mp hb).1
  have hcount (h : Shows bound levelCount es) := h.levelCount.whole n (positive_eq_ok.mp hn).1
  refine .bind (.mapM fun e he => failsOnly_checkPin hbound hcount fun h => h.pins e he)
    fun given hgiven => .bind (failsOnly_checkPins hbound hcount fun h => ?_) fun _ _ => failsOnly_ok _
  have hall := (mapM_eq_ok.mp hgiven).imp fun _ _ hp => (isPin_of_checkPin hp).1
  rw [pinProduct_eq_factorProduct hall]
  exact h.product

end Values

/-- What pins of whole numbers mention is all that a refusal may show. -/
theorem shows_of_mentioned (hes : List.Forall₂ IsWholePin es pins)
    (hshort : ∀ m ∈ mentioned b.toInt n.toInt pins, Text.isShort m) :
    Shows b.toValue n.toValue es := by
  have hproduct : factorProduct es = (pins.map Prod.snd).prod := by
    rw [factorProduct]
    clear hshort
    induction hes with
    | nil => rfl
    | @cons e p es pins hep _ ih =>
      rw [List.map_cons, List.prod_cons, List.map_cons, List.prod_cons, ih, hep.factor.1,
        Option.getD_some]
  refine ⟨Value.canShow_toValue (hshort _ (by simp [mentioned])),
    Value.canShow_toValue (hshort _ (by simp [mentioned])), fun e he i hi => hshort i ?_,
    hproduct ▸ hshort _ (by simp [mentioned])⟩
  obtain ⟨p, hp, hep⟩ := exists_of_forall₂ hes he
  simp only [mentioned, List.mem_cons, List.mem_flatMap]
  refine .inr (.inr (.inr ⟨p, hp, ?_⟩))
  exact hi.imp hep.level.unique fun hi => .inl (hep.factor.unique hi)

theorem failsOnly_wholePins (hes : List.Forall₂ IsWholePin es pins) :
    FailsOnly (Fault.RefusesShowing (mentioned b.toInt n.toInt pins))
      (ofValues b.toValue n.toValue (.map es)) :=
  (failsOnly_ofValues (givenPins_map es)).mono fun _ hf => hf.mono (shows_of_mentioned hes)

/-- The pins of a level structure that are not accepted make an invalid configuration, or cannot be shown.
-/
theorem failsOnly_pinValue (bound levelCount : ℕ) (pins : List (ℕ × Numeral)) :
    FailsOnly (Fault.RefusesShowing (mentioned bound levelCount (wholePins pins)))
      (ofValues (.int bound) (.int levelCount) (pinValue pins)) :=
  failsOnly_wholePins (b := .plain bound) (n := .plain levelCount) (isWholePin_pinValue pins)

end FactorTable

end LoopTiling
