import Mathlib.Data.Int.Notation
import Mathlib.Data.Nat.Notation
import LoopTiling.Text.Digit
import LoopTiling.Decimal.Rounding

/-!
# Whole numbers written and read back

The decimal text of a whole number is read as that number, as long as it may have that many digits.
-/
namespace LoopTiling.Text

theorem isDigit_iff {c : Char} : c.isDigit ↔ 48 ≤ c.toNat ∧ c.toNat ≤ 57 := by
  simp only [Char.isDigit, Bool.and_eq_true, decide_eq_true_eq]
  exact Iff.rfl

theorem digitValue?_of_isDigit {c : Char} (hc : c.isDigit) :
    digitValue? c = some (c.toNat - '0'.toNat) := by
  obtain ⟨hlow, hhigh⟩ := isDigit_iff.mp hc
  have hfirst : (decide (0x30 ≤ c.toNat) && decide (c.toNat < 0x30 + 10)) = true := by
    rw [Bool.and_eq_true, decide_eq_true_iff, decide_eq_true_iff]
    omega
  have hzeros : digitZeros = 0x30 :: digitZeros.tail := rfl
  have hfind : digitZeros.find? (fun z => z ≤ c.toNat && c.toNat < z + 10) = some 0x30 := by
    rw [hzeros]
    exact List.find?_cons_of_pos hfirst
  rw [digitValue?, hfind]
  rfl

theorem isGap_of_isDigit {c : Char} (hc : c.isDigit) : isGap c = false := by
  obtain ⟨hlow, hhigh⟩ := isDigit_iff.mp hc
  have hblank : isBlank c = false := by
    simp only [isBlank, Bool.or_eq_false_iff, Bool.and_eq_false_iff, decide_eq_false_iff_not,
      beq_eq_false_iff_ne]
    omega
  rw [isGap, hblank, Bool.false_and]

theorem trimBy_eq_self {drops : Char → Bool} {s : List Char} (hs : ∀ c ∈ s, drops c = false) :
    trimBy drops s = s := by
  have hkeep (t : List Char) (ht : ∀ c ∈ t, drops c = false) : t.dropWhile drops = t := by
    cases t with
    | nil => rfl
    | cons c t => exact List.dropWhile_cons_of_neg (by simp [ht c List.mem_cons_self])
  rw [trimBy, hkeep s hs, hkeep s.reverse fun c hc => hs c (List.mem_reverse.mp hc),
    List.reverse_reverse]

theorem readDigits_eq {cs : List Char} (hcs : ∀ c ∈ cs, c.isDigit) (value count : ℕ) :
    readDigits value count false cs =
      some (Nat.ofDigitChars 10 cs value, count + cs.length) := by
  induction cs generalizing value count with
  | nil => rfl
  | cons c cs ih =>
    rw [List.forall_mem_cons] at hcs
    have hne : c ≠ '_' := by
      rintro rfl
      exact absurd hcs.1 (by decide)
    rw [readDigits, if_neg hne, digitValue?_of_isDigit hcs.1]
    dsimp only
    rw [ih hcs.2, Nat.ofDigitChars_cons, List.length_cons, Nat.add_right_comm, Nat.add_assoc]

theorem isDigit_toDigits {n : ℕ} {c : Char} (hc : c ∈ Nat.toDigits 10 n) : c.isDigit :=
  Nat.isDigit_of_mem_toDigits (by decide) (by decide) hc

theorem readDigits_toDigits (n : ℕ) :
    readDigits 0 0 true (Nat.toDigits 10 n) = some (n, Decimal.digitCount n) := by
  have hdigits : ∀ c ∈ Nat.toDigits 10 n, c.isDigit := fun _ => isDigit_toDigits
  have hread := readDigits_eq hdigits 0 0
  rw [Nat.ofDigitChars_toDigits (by decide) (by decide), Nat.zero_add] at hread
  -- A digit has to come first, and one does.
  cases hchars : Nat.toDigits 10 n with
  | nil => exact absurd hchars Nat.toDigits_ne_nil
  | cons c cs =>
    rw [hchars] at hread hdigits
    have hne : c ≠ '_' := by
      rintro rfl
      exact absurd (hdigits _ List.mem_cons_self) (by decide)
    rw [Decimal.digitCount, hchars, ← hread, readDigits, readDigits, if_neg hne, if_neg hne]

theorem toString_nat_toList (n : ℕ) : (toString n).toList = Nat.toDigits 10 n := by
  rw [Nat.toString_eq_ofList_toDigits, String.toList_ofList]

theorem toString_int (n : ℤ) :
    toString n = if 0 ≤ n then toString n.natAbs else "-" ++ toString n.natAbs := by
  have hrepr : toString n = n.repr := rfl
  rw [hrepr, Int.repr_eq_if]
  split
  · next h =>
    rw [show n.natAbs = n.toNat by omega]
    rfl
  · next h =>
    rw [show n.natAbs = (-n).toNat by omega]
    rfl

/-- The characters of a whole number: its digits, behind a dash if it is negative. -/
theorem toString_int_toList (n : ℤ) : (toString n).toList =
    (if 0 ≤ n then [] else ['-']) ++ Nat.toDigits 10 n.natAbs := by
  rw [toString_int]
  split
  · rw [toString_nat_toList]
    rfl
  · rw [String.toList_append, toString_nat_toList]
    rfl

theorem toList_natCast (n : ℕ) : (toString (n : ℤ)).toList = Nat.toDigits 10 n := by
  rw [toString_int_toList, if_pos (Int.natCast_nonneg n), List.nil_append, Int.natAbs_natCast]

variable [DigitLimit]

theorem readNat?_toDigits {n : ℕ} (hn : allowsDigits (Decimal.digitCount n)) :
    readNat? (Nat.toDigits 10 n) = some n := by
  rw [readNat?, readDigits_toDigits]
  exact if_pos hn

/-- The text of a whole number is read as the number, if it may have so many digits. -/
theorem readInt?_toString {n : ℤ} (hn : allowsDigits (Decimal.digitCount n.natAbs)) :
    readInt? (toString n).toList = some n := by
  have hdigits : ∀ c ∈ Nat.toDigits 10 n.natAbs, c.isDigit := fun _ => isDigit_toDigits
  have hread := readNat?_toDigits hn
  have htrim : trimBy isGap (toString n).toList = (toString n).toList := by
    refine trimBy_eq_self fun c hc => ?_
    rw [toString_int_toList, List.mem_append] at hc
    rcases hc with hc | hc
    · split at hc
      · cases hc
      · obtain rfl := List.mem_singleton.mp hc
        rfl
    · exact isGap_of_isDigit (hdigits c hc)
  rw [readInt?, htrim, toString_int_toList]
  by_cases hnonneg : 0 ≤ n
  · rw [if_pos hnonneg, List.nil_append]
    cases hchars : Nat.toDigits 10 n.natAbs with
    | nil => exact absurd hchars Nat.toDigits_ne_nil
    | cons c cs =>
      rw [hchars] at hread hdigits
      split
      · exact absurd (hdigits '-' (by simp_all)) (by decide)
      · exact absurd (hdigits '+' (by simp_all)) (by decide)
      · rw [hread]
        exact congrArg some (Int.natAbs_of_nonneg hnonneg)
  · rw [if_neg hnonneg]
    simp only [List.cons_append, List.nil_append, hread]
    exact congrArg some (show -(n.natAbs : ℤ) = n by omega)

theorem isShort_of_allowsDigits {n : ℤ} (hn : allowsDigits (Decimal.digitCount n.natAbs)) :
    isShort n := by
  rw [allowsDigits] at hn
  rw [isShort]
  cases hmost : (DigitLimit.most? : Option ℕ) with
  | none => rfl
  | some most =>
    rw [hmost, Option.all_some, decide_eq_true_iff] at hn
    have hpos : 0 < most := Nat.lt_of_lt_of_le (Nat.length_toDigits_pos) hn
    rw [Option.all_some, decide_eq_true_iff]
    exact (Nat.length_toDigits_le_iff (by decide) hpos).mp hn

end LoopTiling.Text
