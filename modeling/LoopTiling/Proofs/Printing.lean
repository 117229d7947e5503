import Mathlib.Data.Nat.Notation
import LoopTiling.Decimal.Count
import LoopTiling.Fault

/-!
# Without a digit limit everything can be shown

Where whole numbers may have any number of digits, every value has a text, every fault has a sentence,
and the kind of a fault is that of its cause.
-/
namespace LoopTiling

/-- A sentence can be shown if all its parts can. -/
theorem Fault.isSome_said {parts : List (Option String)} (h : ∀ p ∈ parts, p.isSome) :
    (said parts).isSome := by
  have hall : ∃ texts, parts.mapM id = some texts := by
    induction parts with
    | nil => exact ⟨[], rfl⟩
    | cons p parts ih =>
      rw [List.forall_mem_cons] at h
      obtain ⟨s, hs⟩ := Option.isSome_iff_exists.mp h.1
      obtain ⟨rest, hrest⟩ := ih h.2
      exact ⟨s :: rest, by simp [hs, hrest]⟩
  obtain ⟨texts, htexts⟩ := hall
  simp [said, htexts]

theorem Fault.isSome_said_iff {parts : List (Option String)} :
    (said parts).isSome ↔ ∀ p ∈ parts, p.isSome := by
  refine ⟨fun h => ?_, isSome_said⟩
  rw [said, Option.map_eq_map, Option.isSome_map] at h
  induction parts with
  | nil => exact List.forall_mem_nil _
  | cons p parts ih =>
    cases p with
    | none => cases h
    | some s =>
      refine List.forall_mem_cons.mpr ⟨rfl, ih ?_⟩
      cases hrest : parts.mapM id with
      | none => simp [hrest] at h
      | some rest => rfl

variable [limit : Text.DigitLimit]

namespace Text

theorem isShort_of_unlimited (h : limit.most? = none) (n : Int) : isShort n = true := by
  simp [isShort, h]

theorem isShort_mono {n m : ℕ} (hle : n ≤ m) (hm : isShort m = true) : isShort n = true := by
  simp only [isShort, Int.natAbs_natCast] at hm ⊢
  cases hmost : limit.most? with
  | none => rfl
  | some most =>
    simp only [hmost, Option.all_some, decide_eq_true_eq] at hm ⊢
    exact Nat.lt_of_le_of_lt hle hm

theorem isSome_decimal? (h : limit.most? = none) (n : Int) : (decimal? n).isSome := by
  simp [decimal?, isShort_of_unlimited h]

theorem isSome_decimal?_iff (n : Int) : (decimal? n).isSome ↔ isShort n := by
  rw [decimal?]
  split <;> simp_all

theorem isSome_grouped?_iff (n : Int) : (grouped? n).isSome ↔ isShort n := by
  rw [grouped?]
  split <;> simp_all

end Text

theorem Decimal.isSome_count?_iff (n : Nat) : (count? n).isSome ↔ Text.isShort n := by
  rw [count?, countText?]
  split
  · exact Text.isSome_grouped?_iff n
  · split <;> simp_all

theorem Numeral.isSome_text? (h : limit.most? = none) (n : Numeral) : n.text?.isSome := by
  cases n with
  | plain n => exact Text.isSome_decimal? h n
  | dim d => rfl

theorem Numeral.isSome_text?_of_isShort {n : Numeral} (hn : Text.isShort n.toInt) :
    n.text?.isSome := by
  cases n with
  | plain n => exact (Text.isSome_decimal?_iff n).mpr hn
  | dim d => rfl

namespace Value

theorem isSome_quoted?_of_isShort {n : Numeral} (hn : Text.isShort n.toInt) :
    n.toValue.quoted?.isSome := by
  cases n with
  | plain n =>
    rw [Numeral.toValue, quoted?]
    exact (Text.isSome_decimal?_iff n).mpr hn
  | dim d =>
    rw [Numeral.toValue, quoted?]
    rfl

/-- Whether a value can be shown, and so can the whole number that it is. -/
structure CanShow (v : Value) : Prop where
  quoted : v.quoted?.isSome
  whole : ∀ n, v.numeral? = some n → Text.isShort n.toInt

theorem canShow_toValue {n : Numeral} (hn : Text.isShort n.toInt) : n.toValue.CanShow := by
  refine ⟨isSome_quoted?_of_isShort hn, fun m hm => ?_⟩
  rw [numeral?_toValue, Option.some.injEq] at hm
  rwa [← hm]

mutual

theorem isSome_quoted? (h : limit.most? = none) : ∀ v : Value, v.quoted?.isSome
  | null | flag _ | word _ | dim _ | float _ | text _ => by simp [quoted?]
  | int n => by
    rw [quoted?]
    exact Text.isSome_decimal? h n
  | list vs => by
    rw [quoted?, Option.isSome_map]
    exact isSome_quotedItems? h vs
  | tuple vs => by
    rw [quoted?, Option.isSome_map]
    exact isSome_quotedItems? h vs
  | map es => by
    rw [quoted?, Option.isSome_map]
    exact isSome_quotedEntries? h es

theorem isSome_quotedItems? (h : limit.most? = none) : ∀ vs : List Value, (quotedItems? vs).isSome
  | [] => rfl
  | v :: vs => by
    obtain ⟨s, hs⟩ := Option.isSome_iff_exists.mp (isSome_quoted? h v)
    obtain ⟨rest, hrest⟩ := Option.isSome_iff_exists.mp (isSome_quotedItems? h vs)
    simp [quotedItems?, hs, hrest]

theorem isSome_quotedEntries? (h : limit.most? = none) :
    ∀ es : List (Value × Value), (quotedEntries? es).isSome
  | [] => rfl
  | (k, v) :: es => by
    obtain ⟨s, hs⟩ := Option.isSome_iff_exists.mp (isSome_quoted? h k)
    obtain ⟨t, ht⟩ := Option.isSome_iff_exists.mp (isSome_quoted? h v)
    obtain ⟨rest, hrest⟩ := Option.isSome_iff_exists.mp (isSome_quotedEntries? h es)
    simp [quotedEntries?, hs, ht, hrest]

end

theorem isSome_text? (h : limit.most? = none) (v : Value) : v.text?.isSome := by
  cases v with
  | text | word | dim => rfl
  | _ => exact isSome_quoted? h _

end Value

namespace Fault

theorem isSome_sentence? (h : limit.most? = none) (fault : Fault) : fault.sentence?.isSome := by
  induction fault with
  | inDimension d cause ih => exact isSome_said (by simp [ih])
  | unsupported | notWhole | pinNotWhole | digitCount | orderingLength | perDimLength
  | factorSpaceEmpty | noLevels | noLevelList | noLayers | workloadFile | levelFile | layerFile
  | outputFile => rfl
  | _ =>
    apply isSome_said
    simp [Text.isSome_decimal? h, Numeral.isSome_text? h, Value.isSome_text? h,
      Value.isSome_quoted? h, nameList]

/-- A fault of a value is one whether or not it can be shown. -/
theorem kind_eq_value {fault : Fault} (h : fault.causeKind = .value) : fault.kind = .value := by
  rw [kind, h, ite_self]

theorem kind_eq_causeKind (h : limit.most? = none) (fault : Fault) :
    fault.kind = fault.causeKind := by
  rw [kind, if_pos (isSome_sentence? h fault)]

end Fault

end LoopTiling
