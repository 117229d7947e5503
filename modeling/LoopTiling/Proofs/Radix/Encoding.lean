import Mathlib.Data.List.Forall2
import LoopTiling.Proofs.Index
import LoopTiling.Proofs.Radix.Numbering

/-!
# Encoding of digits

Over axes that are plain ranges `encode` computes the rank of whole numbers that are digits of the axes,
and refuses every other list of as many whole numbers with a fault of a digit.
-/
namespace LoopTiling

namespace Number

theorem nonneg_int (n : ℤ) : (Number.int n).nonneg = decide (0 ≤ n) := by
  rw [nonneg, equal, compare?]
  rcases lt_trichotomy n 0 with h | rfl | h
  · simp [compare_lt_iff_lt.mpr h, h]
  · rfl
  · simp [compare_gt_iff_gt.mpr h, h.le]

/-- Whether a number is a certain whole number, an integer or a word. -/
def IsWhole (x : Number) (n : ℤ) : Prop := x = .int n ∨ ∃ w : Int64, x = .word w ∧ w.toInt = n

variable {x : Number} {n : ℤ}

theorem IsWhole.nonneg_eq (h : x.IsWhole n) : x.nonneg = decide (0 ≤ n) := by
  rcases h with rfl | ⟨w, rfl, rfl⟩
  · exact nonneg_int n
  · exact nonneg_int w.toInt

theorem IsWhole.less_int (h : x.IsWhole n) (m : ℤ) : x.less (.int m) = decide (n < m) := by
  rcases h with rfl | ⟨w, rfl, rfl⟩
  · exact Number.less_int n m
  · exact Number.less_int w.toInt m

theorem IsWhole.toValue (h : x.IsWhole n) : x.toValue.IsWhole n := by
  rcases h with rfl | ⟨w, rfl, rfl⟩
  · exact ⟨rfl, fun _ => Value.noConfusion⟩
  · exact ⟨rfl, fun _ => Value.noConfusion⟩

end Number

namespace Value

/-- Whether a value is a certain whole number, and no word. -/
def IsInteger (v : Value) (n : ℤ) : Prop := v.number? = some (.int n)

theorem asNumber_of_number? {v : Value} {x : Number} (h : v.number? = some x) : v.asNumber = .ok x := by
  rw [asNumber, h]

theorem isInteger_int (n : ℤ) : (int n).IsInteger n := rfl

/-- What may be used as a whole number is this whole number. -/
theorem exists_number? {v : Value} {n : ℤ} (h : v.index? = some n) :
    ∃ x, v.number? = some x ∧ x.IsWhole n := by
  cases v with
  | word w => exact ⟨_, rfl, .inr ⟨w, rfl, Option.some.inj h⟩⟩
  | float => cases h
  | _ => exact ⟨_, congrArg (Option.map Number.int) h, .inl rfl⟩

theorem less_of_number? {v w : Value} {a b : Number} (hv : v.number? = some a)
    (hw : w.number? = some b) : v.less w = .ok (a.less b) := by
  have hless : v.less w = do return (← v.asNumber).less (← w.asNumber) := by
    cases v <;> cases w <;> first | rfl | (cases hv; done) | cases hw
  rw [hless, asNumber, asNumber, hv, hw]
  rfl

end Value

namespace Radix

def AreDigits (rs : List ℕ) (ds : List ℤ) : Prop :=
  List.Forall₂ (fun (r : ℕ) (d : ℤ) => 0 ≤ d ∧ d < r) rs ds

theorem rank_lt_volume {rs : List ℕ} {ds : List ℤ} (h : AreDigits rs ds) :
    rank rs (ds.map Int.toNat) < volume rs := by
  induction h with
  | nil => exact Nat.one_pos
  | @cons r d rs ds hd _ ih =>
    have hdigit : d.toNat < r := by omega
    calc d.toNat + r * rank rs (ds.map Int.toNat)
        < r * (rank rs (ds.map Int.toNat) + 1) := by rw [Nat.mul_succ]; omega
      _ ≤ r * volume rs := Nat.mul_le_mul_left r ih

theorem digits_rank {rs : List ℕ} {ds : List ℤ} (h : AreDigits rs ds) :
    digits rs (rank rs (ds.map Int.toNat)) = ds.map Int.toNat := by
  induction h with
  | nil => rfl
  | @cons r d rs ds hd _ ih =>
    have hdigit : d.toNat < r := by omega
    rw [List.map_cons, rank, digits, Nat.add_mul_mod_self_left, Nat.mod_eq_of_lt hdigit,
      Nat.add_mul_div_left _ _ (Nat.zero_lt_of_lt hdigit), Nat.div_eq_of_lt hdigit, Nat.zero_add, ih]

theorem areDigits_digits {rs : List ℕ} (hpos : ∀ r ∈ rs, 0 < r) (i : ℕ) :
    AreDigits rs ((digits rs i).map fun (d : ℕ) => (d : ℤ)) := by
  induction rs generalizing i with
  | nil => exact List.Forall₂.nil
  | cons r rs ih =>
    rw [List.forall_mem_cons] at hpos
    refine List.Forall₂.cons ⟨Int.natCast_nonneg _, ?_⟩ (ih hpos.2 (i / r))
    exact Int.ofNat_lt.mpr (Nat.mod_lt i hpos.1)

/-- A whole number is added to a rank if it is a digit, in whatever form it is given. -/
theorem pushDigit_of_isWhole {radix digit : Value} {r : ℕ} {d : ℤ} {x rest : Number}
    (hr : radix.IsInteger r) (hx : digit.number? = some x) (hd : x.IsWhole d) :
    pushDigit radix digit rest = if 0 ≤ d ∧ d < r then (do (← rest.mul (.int r)).add x)
      else .error (.digitRange digit radix) := by
  simp only [pushDigit, Value.asNumber_of_number? hx, Value.asNumber_of_number? hr, ok_bind,
    hd.nonneg_eq, Value.less_of_number? hx hr, hd.less_int]
  by_cases h0 : 0 ≤ d
  · by_cases hlt : d < r
    · simp [h0, hlt]
    · simp [h0, hlt, throw, throwThe, MonadExceptOf.throw, error_bind]
  · simp [h0, throw, throwThe, MonadExceptOf.throw, error_bind]

theorem pushDigit_integer {radix digit : Value} {r : ℕ} {d n : ℤ} (hr : radix.IsInteger r)
    (hd : digit.IsInteger d) : pushDigit radix digit (.int n) =
      if 0 ≤ d ∧ d < r then .ok (.int (n * r + d)) else .error (.digitRange digit radix) :=
  pushDigit_of_isWhole hr hd (.inl rfl)

/-- Whole numbers are encoded by their rank if and only if they are digits. -/
theorem encodeFrom_integers {radices digits : List Value} {rs : List ℕ} {ds : List ℤ}
    (hr : List.Forall₂ (fun v (r : ℕ) => v.IsInteger r) radices rs)
    (hd : List.Forall₂ Value.IsInteger digits ds) (hlen : ds.length = rs.length) :
    (AreDigits rs ds ∧ encodeFrom radices digits = .ok (.int (rank rs (ds.map Int.toNat)))) ∨
      (¬ AreDigits rs ds ∧ ∃ d r, encodeFrom radices digits = .error (.digitRange d r)) := by
  induction hr generalizing digits ds with
  | nil =>
    obtain rfl := List.eq_nil_of_length_eq_zero hlen
    cases hd
    exact .inl ⟨List.Forall₂.nil, rfl⟩
  | @cons radix r radices rs hradix _ ih =>
    obtain ⟨d, ds, rfl⟩ := List.exists_cons_of_length_eq_add_one hlen
    obtain ⟨digit, digits, hdigit, hdigits, rfl⟩ := List.forall₂_cons_right_iff.mp hd
    simp only [AreDigits, encodeFrom, List.forall₂_cons]
    rcases ih hdigits (Nat.succ_injective hlen) with ⟨hds, hrest⟩ | ⟨hds, d', r', hrest⟩
    · rw [hrest, ok_bind, pushDigit_integer hradix hdigit]
      by_cases hd : 0 ≤ d ∧ d < r
      · refine .inl ⟨⟨hd, hds⟩, ?_⟩
        have hcast : (d.toNat : ℤ) = d := Int.toNat_of_nonneg hd.1
        rw [if_pos hd, List.map_cons, rank, Nat.cast_add, Nat.cast_mul, hcast, Int.add_comm,
          Int.mul_comm]
      · exact .inr ⟨fun h => hd h.1, digit, radix, if_neg hd⟩
    · exact .inr ⟨fun h => hds h.2, d', r', by rw [hrest, error_bind]⟩

theorem forall₂_isInteger_radices (rs : List ℕ) :
    List.Forall₂ (fun (v : Value) (r : ℕ) => v.IsInteger r) (rs.map fun (r : ℕ) => .int r) rs :=
  List.forall₂_map_left_iff.mpr (List.forall₂_same.mpr fun r _ => Value.isInteger_int r)

theorem forall₂_isInteger_digits (ds : List ℤ) : List.Forall₂ Value.IsInteger (ds.map .int) ds :=
  List.forall₂_map_left_iff.mpr (List.forall₂_same.mpr fun d _ => Value.isInteger_int d)

theorem encodeFrom_int {rs : List ℕ} {ds : List ℤ} (hlen : ds.length = rs.length) :
    (AreDigits rs ds ∧ encodeFrom (rs.map fun (r : ℕ) => .int r) (ds.map .int) =
        .ok (.int (rank rs (ds.map Int.toNat)))) ∨
      (¬ AreDigits rs ds ∧ ∃ d r, encodeFrom (rs.map fun (r : ℕ) => .int r) (ds.map .int) =
        .error (.digitRange d r)) :=
  encodeFrom_integers (forall₂_isInteger_radices rs) (forall₂_isInteger_digits ds) hlen

theorem encodeFrom_digits {rs : List ℕ} (hpos : ∀ r ∈ rs, 0 < r) {i : ℕ} (hi : i < volume rs) :
    encodeFrom (rs.map fun (r : ℕ) => .int r) ((digits rs i).map fun (d : ℕ) => .int d) =
      .ok (.int i) := by
  have hds := areDigits_digits hpos i
  have hlen : ((digits rs i).map fun (d : ℕ) => (d : ℤ)).length = rs.length := by
    rw [List.length_map, length_digits]
  have hnat : ((digits rs i).map fun (d : ℕ) => (d : ℤ)).map Int.toNat = digits rs i := by
    rw [List.map_map]
    exact List.map_id' _
  rcases encodeFrom_int hlen with ⟨-, hok⟩ | ⟨hnot, -⟩
  · rw [hnat, rank_digits_of_lt hi, List.map_map] at hok
    exact hok
  · exact absurd hds hnot

end Radix

end LoopTiling
