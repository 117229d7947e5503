import Mathlib.Algebra.BigOperators.Intervals
import Mathlib.Algebra.BigOperators.Ring.Finset
import LoopTiling.Proofs.Radix.Encoding

/-!
# Digits that are words

Digits are integers and words in any mix. From the last axis on the rank is exact until the first word is
added; from there on it is a word, every radix that it is multiplied by has to fit a word, and the
arithmetic is modulo `2 ^ 64`. So the rank is exact if and only if no digit is a word, or the rank and
every radix in front of a word lie below `2 ^ 63`.
-/
namespace LoopTiling

namespace Number

theorem toWord_of_lt {n : ℕ} (h : n < 2 ^ 63) : toWord n = .ok (Int64.ofInt n) := by
  have hlimit : (wordLimit : ℤ) = 2 ^ 63 := rfl
  rw [toWord, hlimit, if_pos (by omega)]

theorem toWord_of_le {n : ℕ} (h : 2 ^ 63 ≤ n) : toWord n = .error (.unsupported .overflow) := by
  have hlimit : (wordLimit : ℤ) = 2 ^ 63 := rfl
  rw [toWord, hlimit, if_neg (by omega)]

/-- The first word that an integer meets. -/
theorem add_word {n : ℕ} {w : Int64} (hn : n < 2 ^ 63) :
    (int n).add (word w) = .ok (word (Int64.ofInt (n + w.toInt))) := by
  rw [Int64.ofInt_add, Int64.ofInt_toInt]
  simp only [add, meet, toWord_of_lt hn, ok_bind]
  rfl

theorem add_word_of_le {n : ℕ} {w : Int64} (hn : 2 ^ 63 ≤ n) :
    (int n).add (word w) = .error (.unsupported .overflow) := by
  simp only [add, meet, toWord_of_le hn, error_bind]

theorem word_mul {r : ℕ} {n : ℤ} (hr : r < 2 ^ 63) :
    (word (Int64.ofInt n)).mul (int r) = .ok (word (Int64.ofInt (n * r))) := by
  rw [Int64.ofInt_mul]
  simp only [mul, meet, toWord_of_lt hr, ok_bind]
  rfl

theorem word_mul_of_le {r : ℕ} {w : Int64} (hr : 2 ^ 63 ≤ r) :
    (word w).mul (int r) = .error (.unsupported .overflow) := by
  simp only [mul, meet, toWord_of_le hr, error_bind]

/-- A small whole number is added to a word in the arithmetic of words. -/
theorem word_add {x : Number} {d : ℕ} {n : ℤ} (hx : x.IsWhole d) (hd : d < 2 ^ 63) :
    (word (Int64.ofInt n)).add x = .ok (word (Int64.ofInt (n + d))) := by
  rw [Int64.ofInt_add]
  rcases hx with rfl | ⟨w, rfl, hw⟩
  · simp only [add, meet, toWord_of_lt hd, ok_bind]
    rfl
  · rw [← hw, Int64.ofInt_toInt]
    rfl

end Number

theorem Value.eq_word_of_number? {v : Value} {w : Int64} (h : v.number? = some (.word w)) :
    v = .word w := by
  cases v with
  | word u => rw [Number.word.inj (Option.some.inj h)]
  | _ => cases h

namespace Radix

/-- The sum of the digits, each times the product of the radices in front of it. -/
def digitSum (rs : List ℕ) (ds : List ℤ) : ℤ :=
  ∑ i ∈ Finset.range rs.length, ds.getD i 0 * ((rs.take i).prod : ℕ)

theorem digitSum_cons (r : ℕ) (rs : List ℕ) (d : ℤ) (ds : List ℤ) :
    digitSum (r :: rs) (d :: ds) = d + r * digitSum rs ds := by
  have hsum : digitSum (r :: rs) (d :: ds) = ∑ i ∈ Finset.range (rs.length + 1),
      (d :: ds).getD i 0 * (((r :: rs).take i).prod : ℕ) := rfl
  rw [hsum, Finset.sum_range_succ', digitSum, Finset.mul_sum, add_comm]
  simp only [List.getD_cons_succ, List.take_succ_cons, List.prod_cons, List.getD_cons_zero,
    List.take_zero, List.prod_nil, Nat.cast_one, mul_one, Nat.cast_mul, mul_left_comm]

theorem rank_eq_digitSum {rs : List ℕ} {ds : List ℤ} (h : AreDigits rs ds) :
    (rank rs (ds.map Int.toNat) : ℤ) = digitSum rs ds := by
  induction h with
  | nil => rfl
  | @cons r d rs ds hd _ ih =>
    rw [List.map_cons, rank, Nat.cast_add, Nat.cast_mul, Int.toNat_of_nonneg hd.1, ih, digitSum_cons]

def HasWord (digits : List Value) : Prop := ∃ w, .word w ∈ digits

/-- Whether every radix in front of a word among the digits fits a word. -/
def RadicesFit : List ℕ → List Value → Prop
  | r :: rs, _ :: digits => (HasWord digits → r < 2 ^ 63) ∧ RadicesFit rs digits
  | _, _ => True

theorem radicesFit_of_not_hasWord {rs : List ℕ} {digits : List Value} (h : ¬ HasWord digits) :
    RadicesFit rs digits := by
  induction rs generalizing digits with
  | nil => exact trivial
  | cons r rs ih =>
    cases digits with
    | nil => exact trivial
    | cons v digits =>
      have hrest : ¬ HasWord digits := fun ⟨w, hw⟩ => h ⟨w, List.mem_cons_of_mem v hw⟩
      exact ⟨fun hword => absurd hword hrest, ih hrest⟩

/-- What the encoding of digits with a certain rank comes to, by the words among them. -/
inductive Outcome (rs : List ℕ) (digits : List Value) (n : ℕ) : Except Fault Number → Prop
  | integer : ¬ HasWord digits → Outcome rs digits n (.ok (.int n))
  | word : HasWord digits → RadicesFit rs digits →
      Outcome rs digits n (.ok (.word (Int64.ofInt n)))
  | overflow : HasWord digits → (n < 2 ^ 63 → ¬ RadicesFit rs digits) →
      Outcome rs digits n (.error (.unsupported .overflow))

section Steps

variable {radices digits : List Value} {rs : List ℕ} {ds : List ℤ}

/-- One more digit below a rank. -/
theorem Outcome.push {n : ℕ} {out : Except Fault Number} (h : Outcome rs digits n out)
    {radix digit : Value} {r d : ℕ} (hr : radix.IsInteger r) (hd : digit.index? = some (d : ℤ))
    (hlt : d < r) :
    Outcome (r :: rs) (digit :: digits) (d + r * n) (out >>= pushDigit radix digit) := by
  obtain ⟨x, hx, hwhole⟩ := Value.exists_number? hd
  have hpush (rest : Number) :
      pushDigit radix digit rest = rest.mul (.int r) >>= fun y => y.add x := by
    rw [pushDigit_of_isWhole hr hx hwhole, if_pos ⟨Int.natCast_nonneg d, Int.ofNat_lt.mpr hlt⟩]
  have hcomm : d + r * n = n * r + d := by rw [Nat.add_comm, Nat.mul_comm]
  rw [hcomm]
  cases h with
  | integer hnone =>
    have hmul : (Number.int n).mul (.int r) = .ok (.int (n * r : ℕ)) := by
      rw [Nat.cast_mul]
      rfl
    rw [ok_bind, hpush, hmul, ok_bind]
    rcases hwhole with rfl | ⟨w, rfl, hw⟩
    · refine .integer ?_
      rintro ⟨w, hmem⟩
      rcases List.mem_cons.mp hmem with rfl | hmem
      · cases hx
      · exact hnone ⟨w, hmem⟩
    · obtain rfl : digit = .word w := Value.eq_word_of_number? hx
      have hword : HasWord (.word w :: digits) := ⟨w, List.mem_cons_self⟩
      have hfit : RadicesFit (r :: rs) (.word w :: digits) :=
        ⟨fun h => absurd h hnone, radicesFit_of_not_hasWord hnone⟩
      by_cases hsmall : n * r < 2 ^ 63
      · rw [Number.add_word hsmall, hw, ← Nat.cast_add]
        exact .word hword hfit
      · rw [Number.add_word_of_le (by omega)]
        exact .overflow hword fun hrank => absurd hrank (by omega)
  | word hword hfit =>
    have hcons : HasWord (digit :: digits) := hword.imp fun _ => List.mem_cons_of_mem digit
    rw [ok_bind, hpush]
    by_cases hsmall : r < 2 ^ 63
    · rw [Number.word_mul hsmall, ok_bind, Number.word_add hwhole (hlt.trans hsmall), ← Nat.cast_mul,
        ← Nat.cast_add]
      exact .word hcons ⟨fun _ => hsmall, hfit⟩
    · rw [Number.word_mul_of_le (by omega), error_bind]
      exact .overflow hcons fun _ hfit => hsmall (hfit.1 hword)
  | overflow hword hnot =>
    have hle : n ≤ n * r := Nat.le_mul_of_pos_right n (Nat.zero_lt_of_lt hlt)
    refine .overflow (hword.imp fun _ => List.mem_cons_of_mem digit) fun hrank hfit => ?_
    exact hnot (by omega) hfit.2

theorem encodeFrom_outcome (hr : List.Forall₂ (fun v (r : ℕ) => v.IsInteger r) radices rs)
    (hd : List.Forall₂ (fun v d => v.index? = some d) digits ds) (hds : AreDigits rs ds) :
    Outcome rs digits (rank rs (ds.map Int.toNat)) (encodeFrom radices digits) := by
  induction hds generalizing radices digits with
  | nil =>
    cases hr
    cases hd
    exact .integer fun ⟨w, hw⟩ => List.not_mem_nil hw
  | @cons r d rs ds hdigit _ ih =>
    obtain ⟨radix, radices, hradix, hradices, rfl⟩ := List.forall₂_cons_right_iff.mp hr
    obtain ⟨digit, digits, hindex, hdigits, rfl⟩ := List.forall₂_cons_right_iff.mp hd
    have hcast : (d.toNat : ℤ) = d := Int.toNat_of_nonneg hdigit.1
    exact (ih hradices hdigits).push hradix (hcast ▸ hindex) (by omega)

/-- Whether values are digits of the axes, in any mix of forms. -/
structure AreMixedDigits (rs : List ℕ) (digits : List Value) (ds : List ℤ) : Prop where
  whole : List.Forall₂ (fun v d => v.index? = some d) digits ds
  inRange : AreDigits rs ds

/-- Whether encoding digits of mixed form does not leave the arithmetic in which it is exact. -/
def StaysExact (rs : List ℕ) (digits : List Value) (ds : List ℤ) : Prop :=
  HasWord digits → digitSum rs ds < 2 ^ 63 ∧ RadicesFit rs digits

/-- What digits of mixed form come to: their sum and themselves again where the encoding stays exact,
otherwise a fault or a wrong number. -/
structure MixedRoundTrip (rs : List ℕ) (digits : List Value) (ds : List ℤ)
    (encoded : Except Fault Number) (decode : Value → Except Fault (List ℕ)) : Prop where
  kept : StaysExact rs digits ds → ∃ x, encoded = .ok x ∧ x.IsWhole (digitSum rs ds) ∧
    decode x.toValue = .ok (ds.map Int.toNat)
  lost : ¬ StaysExact rs digits ds → encoded = .error (.unsupported .overflow) ∨
    ∃ w, encoded = .ok (.word w) ∧ w.toInt ≠ digitSum rs ds

theorem AreMixedDigits.roundTrip (h : AreMixedDigits rs digits ds) (what : String) :
    MixedRoundTrip rs digits ds (encode (rs.map fun (r : ℕ) => .int r) digits)
      fun v => Radix.digits rs <$> v.placeIn what (volume rs) := by
  obtain ⟨hd, hds⟩ := h
  have hr := forall₂_isInteger_radices rs
  have hlen : digits.length = (rs.map fun (r : ℕ) => Value.int r).length := by
    rw [hd.length_eq, hr.length_eq, hds.length_eq]
  have hsum := rank_eq_digitSum hds
  have hdecode {x : Number} (hx : x.IsWhole (rank rs (ds.map Int.toNat))) :
      Radix.digits rs <$> x.toValue.placeIn what (volume rs) = .ok (ds.map Int.toNat) := by
    rw [Value.placeIn_of_isWhole hx.toValue, Value.placeIn_natCast (rank_lt_volume hds)]
    exact congrArg Except.ok (digits_rank hds)
  have hout := encodeFrom_outcome hr hd hds
  rw [encode, if_pos hlen]
  generalize encodeFrom (rs.map fun (r : ℕ) => .int r) digits = out at hout ⊢
  cases hout with
  | integer hnone =>
    refine ⟨fun _ => ⟨_, rfl, hsum ▸ .inl rfl, hdecode (.inl rfl)⟩, fun hnot => ?_⟩
    exact absurd (fun hword => absurd hword hnone) hnot
  | word hword hfit =>
    refine ⟨fun hstays => ?_, fun hnot => .inr ⟨_, rfl, fun heq => hnot fun _ => ⟨?_, hfit⟩⟩⟩
    · have hsmall : rank rs (ds.map Int.toNat) < 2 ^ 63 := by
        have := (hstays hword).1
        omega
      have hwhole : (Number.word (Int64.ofInt (rank rs (ds.map Int.toNat)))).IsWhole
          (rank rs (ds.map Int.toNat)) :=
        .inr ⟨_, rfl, Int64.toInt_ofInt_of_le (by omega) (by omega)⟩
      exact ⟨_, rfl, hsum ▸ hwhole, hdecode hwhole⟩
    · rw [← heq]
      exact Int64.toInt_lt _
  | overflow hword hnot =>
    refine ⟨fun hstays => ?_, fun _ => .inl rfl⟩
    obtain ⟨hsmall, hfit⟩ := hstays hword
    exact absurd hfit (hnot (by omega))

end Steps

end Radix

end LoopTiling
