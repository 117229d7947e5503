import Mathlib.Data.Nat.Log
import LoopTiling.Proofs.Decimal.Quotients
import LoopTiling.Proofs.Numerals
import LoopTiling.Decimal.Count

/-!
# Scientific notation

A large count is divided by the power of ten of its first digit. The quotient lies from one up to ten, and
so do the number of 53 bits and the number of decimal places that it is rounded to: the text has one digit in
front of its point, or it is ten with zeros behind. It is ten exactly if the count, in units of `2 ^ (-49)` of
the power of ten, is rounded to more than the last number that is written below ten.
-/
namespace LoopTiling

namespace Decimal

theorem toDigits_pow (k : ℕ) : Nat.toDigits 10 (10 ^ k) = '1' :: List.replicate k '0' := by
  induction k with
  | zero => rfl
  | succ k ih =>
    have hle : 10 ≤ 10 ^ (k + 1) := Nat.le_self_pow k.succ_ne_zero 10
    have hdiv : 10 ^ (k + 1) / 10 = 10 ^ k := Nat.mul_div_cancel _ (by decide)
    have hmod : 10 ^ (k + 1) % 10 = 0 := Nat.mul_mod_left _ _
    rw [Nat.toDigits_of_base_le (by decide) hle, hdiv, hmod, ih, List.replicate_succ',
      List.cons_append]
    rfl

theorem head?_toDigits_ne {n : ℕ} (hn : 0 < n) : (Nat.toDigits 10 n).head? ≠ some '0' := by
  induction n using Nat.strong_induction_on with
  | _ n ih =>
    by_cases hsmall : n < 10
    · rw [Nat.toDigits_of_lt_base hsmall, List.head?_cons]
      intro hzero
      have hn0 := Nat.digitChar_eq_zero.mp (Option.some.inj hzero)
      omega
    · have hquot := ih (n / 10) (by omega) (by omega)
      obtain ⟨c, rest, hcons⟩ := List.exists_cons_of_ne_nil (Nat.toDigits_ne_nil (n := n / 10) (b := 10))
      rw [hcons] at hquot
      rw [Nat.toDigits_of_base_le (by decide) (by omega), hcons]
      exact hquot

theorem length_toDigits_eq {n k : ℕ} (hlow : 10 ^ k ≤ n) (hhigh : n < 10 ^ (k + 1)) :
    (Nat.toDigits 10 n).length = k + 1 := by
  have hle := (Nat.length_toDigits_le_iff (by decide : 1 < 10) k.succ_pos).mpr hhigh
  have hpos : 0 < (Nat.toDigits 10 n).length := Nat.length_toDigits_pos
  by_contra hne
  have hk : 0 < k := by omega
  have hlt := (Nat.length_toDigits_le_iff (n := n) (by decide : 1 < 10) hk).mp (by omega)
  omega

/-- The power of ten of the first digit. -/
theorem magnitude_eq (n : ℤ) (hn : n ≠ 0) : magnitude n = Nat.log 10 n.natAbs := by
  have hpos : n.natAbs ≠ 0 := Int.natAbs_ne_zero.mpr hn
  have hlength := length_toDigits_eq (Nat.pow_log_le_self 10 hpos)
    (Nat.lt_pow_succ_log_self (by decide) n.natAbs)
  rw [magnitude, digitCount, hlength, Nat.add_sub_cancel]

/-- A number in scientific notation: its sign, the digits in front of its point and behind it, and those of
its exponent. -/
structure Scientific where
  negative : Bool
  whole : List Char
  fraction : List Char
  power : List Char

namespace Scientific

def text (t : Scientific) : String :=
  String.ofList ((if t.negative then ['-'] else []) ++ (t.whole ++ '.' :: t.fraction)) ++
    String.ofList ('e' :: '+' :: t.power)

/-- Whether a notation is normalised: one digit other than zero in front of the point, a number of digits
behind it, and an exponent of at least two digits. -/
structure IsNormal (places : ℕ) (t : Scientific) : Prop where
  whole : ∃ c, t.whole = [c] ∧ c.isDigit ∧ c ≠ '0'
  length_fraction : t.fraction.length = places
  isDigit_fraction : ∀ c ∈ t.fraction, c.isDigit
  two_le_length_power : 2 ≤ t.power.length
  isDigit_power : ∀ c ∈ t.power, c.isDigit

/-- The notation with given digits, the last `places` of them behind the point. -/
def ofDigits (negative : Bool) (places : ℕ) (digits : List Char) (power : ℕ) : Scientific where
  negative := negative
  whole := digits.take (digits.length - places)
  fraction := digits.drop (digits.length - places)
  power := Text.padDigits 2 (Nat.toDigits 10 power)

/-- A sign and digits behind it can be told apart. -/
theorem eq_of_sign_append {negative negative' : Bool} {c c' : Char} {cs cs' : List Char}
    (hc : c.isDigit) (hc' : c'.isDigit) (h : (if negative then ['-'] else []) ++ c :: cs =
      (if negative' then ['-'] else []) ++ c' :: cs') : c :: cs = c' :: cs' := by
  cases negative <;> cases negative'
  case false.false => exact h
  case false.true =>
    obtain rfl := (List.cons.inj h).1
    cases hc
  case true.false =>
    obtain rfl := (List.cons.inj h).1
    cases hc'
  case true.true => exact (List.cons.inj h).2

/-- Two digits in front of the point cannot be read as one. -/
theorem text_ne_of_two {t u : Scientific} {a b c : Char} (ht : t.whole = [a, b]) (ha : a.isDigit)
    (hb : b.isDigit) (hu : u.whole = [c]) (hc : c.isDigit) : u.text ≠ t.text := by
  intro h
  have hlist := congrArg String.toList h
  simp only [text, ht, hu, String.toList_append, String.toList_ofList, List.append_assoc,
    List.cons_append, List.nil_append] at hlist
  have hdigits := eq_of_sign_append hc ha hlist
  rw [List.cons.injEq, List.cons.injEq] at hdigits
  obtain ⟨-, rfl, -⟩ := hdigits
  exact absurd hb (by decide)

theorem two_le_length_padDigits (digits : List Char) : 2 ≤ (Text.padDigits 2 digits).length := by
  rw [Text.padDigits, List.length_append, List.length_replicate]
  omega

theorem isDigit_padDigits {width n : ℕ} {c : Char}
    (hc : c ∈ Text.padDigits width (Nat.toDigits 10 n)) : c.isDigit := by
  rw [Text.padDigits, List.mem_append] at hc
  rcases hc with hzero | hdigit
  · rw [List.eq_of_mem_replicate hzero]
    rfl
  · exact Text.isDigit_toDigits hdigit

/-- A number of one digit more than there are places is written with one digit in front of the point. -/
theorem isNormal_ofDigits {places r : ℕ} (hlow : 10 ^ places ≤ r) (hhigh : r < 10 ^ (places + 1))
    (negative : Bool) (power : ℕ) :
    (ofDigits negative places (Nat.toDigits 10 r) power).IsNormal places := by
  have hlength := length_toDigits_eq hlow hhigh
  have hpos : 0 < r := (Nat.pow_pos (by decide)).trans_le hlow
  obtain ⟨c, rest, hcons⟩ := List.exists_cons_of_ne_nil (Nat.toDigits_ne_nil (n := r) (b := 10))
  have hrest : rest.length = places := by
    rw [hcons, List.length_cons] at hlength
    omega
  have hdigit : ∀ d ∈ c :: rest, d.isDigit := fun d hd => Text.isDigit_toDigits (hcons ▸ hd)
  have hhead : c ≠ '0' := by
    have hne := head?_toDigits_ne hpos
    rw [hcons, List.head?_cons] at hne
    exact fun h => hne (congrArg some h)
  have hone : (c :: rest).length - places = 1 := by
    rw [List.length_cons]
    omega
  rw [hcons]
  constructor
  · refine ⟨c, ?_, hdigit c List.mem_cons_self, hhead⟩
    rw [ofDigits, hone]
    rfl
  · rw [ofDigits, hone]
    exact hrest
  · rw [ofDigits, hone]
    exact fun d hd => hdigit d (List.mem_cons_of_mem c hd)
  · exact two_le_length_padDigits _
  · exact fun d => isDigit_padDigits

/-- The least number of two digits more than there are places is ten with zeros behind the point. -/
theorem ofDigits_ten {places : ℕ} (negative : Bool) (power : ℕ) :
    ofDigits negative places (Nat.toDigits 10 (10 ^ (places + 1))) power =
      ⟨negative, ['1', '0'], List.replicate places '0', Text.padDigits 2 (Nat.toDigits 10 power)⟩ := by
  have hlength : ('1' :: '0' :: List.replicate places '0').length - places = 2 := by
    rw [List.length_cons, List.length_cons, List.length_replicate]
    omega
  rw [toDigits_pow, List.replicate_succ, ofDigits, hlength]
  rfl

end Scientific

/-- Whether a text is a number in normalised scientific notation. -/
def IsNormalText (places : ℕ) (s : String) : Prop :=
  ∃ t : Scientific, t.IsNormal places ∧ t.text = s

theorem not_isNormalText_ten {places : ℕ} {t : Scientific} (ht : t.whole = ['1', '0']) :
    ¬ IsNormalText places t.text := by
  rintro ⟨u, hu, htext⟩
  obtain ⟨c, hwhole, hc, -⟩ := hu.whole
  exact Scientific.text_ne_of_two ht rfl rfl hwhole hc htext

theorem length_lt_toDigits {places r : ℕ} (hplaces : 0 < places) (hlow : 10 ^ places ≤ r) :
    places < (Nat.toDigits 10 r).length := by
  by_contra hle
  have hlt := (Nat.length_toDigits_le_iff (n := r) (by decide : 1 < 10) hplaces).mp (by omega)
  omega

theorem fixedPlaces_eq {places num den r : ℕ} (hplaces : 0 < places)
    (hr : roundHalfEven (num * 10 ^ places) den = r) (hlow : 10 ^ places ≤ r) :
    fixedPlaces places num den =
      (Nat.toDigits 10 r).take ((Nat.toDigits 10 r).length - places) ++
        '.' :: (Nat.toDigits 10 r).drop ((Nat.toDigits 10 r).length - places) := by
  have hten : tenTo places = 10 ^ places := rfl
  have hlength := length_lt_toDigits hplaces hlow
  have hpad : places + 1 - (Nat.toDigits 10 r).length = 0 := by omega
  rw [fixedPlaces, hten, hr, hpad, List.replicate_zero, List.nil_append, if_neg hplaces.ne']

/-- The digits of a count without its point: its quotient by the power of ten of its first digit, rounded to
53 bits and then to decimal places. -/
def IsSignificand (n : ℤ) (places r : ℕ) : Prop :=
  ∃ k, Binary64.HasBits n.natAbs (10 ^ Nat.log 10 n.natAbs) k ∧
    r = roundHalfEven (roundHalfEven (n.natAbs * 2 ^ k) (10 ^ Nat.log 10 n.natAbs) * 10 ^ places) (2 ^ k)

/-- The last number that is written below ten, in units of `2 ^ (-49)`: it lies more than half a unit of the
last place below ten. -/
def lastBelowTen (places : ℕ) : ℕ := ((2 * 10 ^ (places + 1) - 1) * 2 ^ 48 - 1) / 10 ^ places

/-- Whether a count divided by the power of ten of its first digit, in units of `2 ^ (-49)`, is rounded to
a number that is written below ten. -/
def StaysBelowTen (n : ℤ) (places : ℕ) : Prop :=
  roundHalfEven (n.natAbs * 2 ^ 49) (10 ^ Nat.log 10 n.natAbs) ≤ lastBelowTen places

theorem le_lastBelowTen_iff {places m : ℕ} :
    m ≤ lastBelowTen places ↔ roundHalfEven (m * 10 ^ places) (2 ^ 49) < 10 ^ (places + 1) := by
  have hpos : 0 < 10 ^ places := Nat.pow_pos (by decide)
  have heven : 10 ^ (places + 1) % 2 = 0 := by
    rw [Nat.pow_succ]
    omega
  rw [roundHalfEven_lt_iff heven (Nat.pow_pos (by decide)) (by decide), lastBelowTen,
    Nat.le_div_iff_mul_le hpos, Nat.pow_succ]
  omega

section Rounding

variable {num den k places : ℕ}

/-- Both roundings of a quotient from one up to ten stay there. -/
theorem rounded_range (hden : 0 < den) (hle : den ≤ num) (hlt : num < 10 * den) :
    10 ^ places ≤ roundHalfEven (roundHalfEven (num * 2 ^ k) den * 10 ^ places) (2 ^ k) ∧
      roundHalfEven (roundHalfEven (num * 2 ^ k) den * 10 ^ places) (2 ^ k) ≤ 10 ^ (places + 1) := by
  have hunit : 0 < 2 ^ k := Nat.two_pow_pos k
  have hlow : 2 ^ k ≤ roundHalfEven (num * 2 ^ k) den := by
    apply le_roundHalfEven hden
    rw [Nat.mul_comm]
    exact Nat.mul_le_mul_right _ hle
  have hhigh : roundHalfEven (num * 2 ^ k) den ≤ 10 * 2 ^ k := by
    apply roundHalfEven_le hden
    rw [Nat.mul_right_comm]
    exact Nat.mul_le_mul_right _ hlt.le
  constructor
  · apply le_roundHalfEven hunit
    rw [Nat.mul_comm]
    exact Nat.mul_le_mul_right _ hlow
  · apply roundHalfEven_le hunit
    calc roundHalfEven (num * 2 ^ k) den * 10 ^ places ≤ 10 * 2 ^ k * 10 ^ places :=
          Nat.mul_le_mul_right _ hhigh
      _ = 10 ^ (places + 1) * 2 ^ k := by rw [Nat.pow_succ, Nat.mul_right_comm, Nat.mul_comm 10]

/-- A quotient of 53 bits has 49 of them behind the point if it is at least eight. -/
theorem bits_cases (hbits : Binary64.HasBits num den k) (hlt : num < 10 * den) :
    k = 49 ∨ num ≤ 8 * den := by
  obtain ⟨hlow, hhigh⟩ := hbits
  rcases Nat.lt_trichotomy k 49 with hk | hk | hk
  · have hpow : num * 2 ^ k ≤ num * 2 ^ 48 :=
      Nat.mul_le_mul_left num (Nat.pow_le_pow_right (by decide) (by omega))
    omega
  · exact .inl hk
  · have hpow : num * 2 ^ 50 ≤ num * 2 ^ k :=
      Nat.mul_le_mul_left num (Nat.pow_le_pow_right (by decide) (by omega))
    omega

/-- Up to eight nothing is rounded up to ten. -/
theorem rounded_lt_of_le_eight (hden : 0 < den) (hle : num ≤ 8 * den) :
    roundHalfEven (roundHalfEven (num * 2 ^ k) den * 10 ^ places) (2 ^ k) < 10 ^ (places + 1) := by
  have hpos : 0 < 10 ^ places := Nat.pow_pos (by decide)
  have hhigh : roundHalfEven (num * 2 ^ k) den ≤ 8 * 2 ^ k := by
    apply roundHalfEven_le hden
    rw [Nat.mul_right_comm]
    exact Nat.mul_le_mul_right _ hle
  have hround : roundHalfEven (roundHalfEven (num * 2 ^ k) den * 10 ^ places) (2 ^ k) ≤
      8 * 10 ^ places := by
    apply roundHalfEven_le (Nat.two_pow_pos k)
    rw [Nat.mul_right_comm]
    exact Nat.mul_le_mul_right _ hhigh
  rw [Nat.pow_succ]
  omega

theorem rounded_lt_iff (hden : 0 < den) (hlt : num < 10 * den) (hbits : Binary64.HasBits num den k) :
    roundHalfEven (roundHalfEven (num * 2 ^ k) den * 10 ^ places) (2 ^ k) < 10 ^ (places + 1) ↔
      roundHalfEven (num * 2 ^ 49) den ≤ lastBelowTen places := by
  rw [le_lastBelowTen_iff]
  rcases bits_cases hbits hlt with rfl | hle
  · exact Iff.rfl
  · exact iff_of_true (rounded_lt_of_le_eight hden hle) (rounded_lt_of_le_eight hden hle)

end Rounding

/-- Whether a notation is that of a count with a number of places: it has the count's sign, the digits of its
significand and the exponent of its first digit. -/
structure Scientific.IsCount (n : ℤ) (places : ℕ) (t : Scientific) : Prop where
  negative : t.negative = decide (n < 0)
  digits : ∃ r, IsSignificand n places r ∧ t.whole ++ t.fraction = Nat.toDigits 10 r
  length_fraction : t.fraction.length = places
  power : t.power = Text.padDigits 2 (Nat.toDigits 10 (Nat.log 10 n.natAbs))

theorem scientific_eq {n : ℤ} (hn : n ≠ 0) {places : ℕ} (hplaces : 0 < places) :
    ∃ r, IsSignificand n places r ∧ 10 ^ places ≤ r ∧ r ≤ 10 ^ (places + 1) ∧
      (r < 10 ^ (places + 1) ↔ StaysBelowTen n places) ∧
      scientific places (mantissa n) (magnitude n) =
        (Scientific.ofDigits (decide (n < 0)) places (Nat.toDigits 10 r)
          (Nat.log 10 n.natAbs)).text := by
  have hpos : n.natAbs ≠ 0 := Int.natAbs_ne_zero.mpr hn
  have hden : 0 < 10 ^ Nat.log 10 n.natAbs := Nat.pow_pos (by decide)
  have hle : 10 ^ Nat.log 10 n.natAbs ≤ n.natAbs := Nat.pow_log_le_self 10 hpos
  have hlt : n.natAbs < 10 * 10 ^ Nat.log 10 n.natAbs := by
    rw [Nat.mul_comm]
    exact Nat.lt_pow_succ_log_self (by decide : 1 < 10) n.natAbs
  have hsmall : n.natAbs < 2 ^ 52 * 10 ^ Nat.log 10 n.natAbs :=
    hlt.trans_le (Nat.mul_le_mul_right _ (by decide))
  obtain ⟨k, hbits, hfixed⟩ := Binary64.exists_fixed_ofRatio (decide (n < 0)) hden hle hsmall
  have hmantissa : mantissa n = .ofRatio (decide (n < 0)) n.natAbs (10 ^ Nat.log 10 n.natAbs) := by
    rw [mantissa, magnitude_eq n hn]
    rfl
  obtain ⟨hlow, hhigh⟩ := @rounded_range _ _ k places hden hle hlt
  refine ⟨_, ⟨k, hbits, rfl⟩, hlow, hhigh, rounded_lt_iff hden hlt hbits, ?_⟩
  rw [scientific, hmantissa, hfixed, fixedPlaces_eq hplaces rfl hlow, magnitude_eq n hn]
  rfl

/-- A large count is written with one digit in front of the point if it stays below ten, and as ten with
zeros behind the point if not. -/
theorem exists_isCount {n : ℤ} (hn : n ≠ 0) {places : ℕ} (hplaces : 0 < places) :
    ∃ t : Scientific, scientific places (mantissa n) (magnitude n) = t.text ∧ t.IsCount n places ∧
      (StaysBelowTen n places → t.IsNormal places) ∧
      (¬ StaysBelowTen n places → t.whole = ['1', '0'] ∧ t.fraction = List.replicate places '0') := by
  obtain ⟨r, hr, hlow, hhigh, hbelow, htext⟩ := scientific_eq hn hplaces
  refine ⟨_, htext, ⟨rfl, ⟨r, hr, List.take_append_drop _ _⟩, ?_, rfl⟩, fun hstays => ?_, fun hten => ?_⟩
  · have hlength := length_lt_toDigits hplaces hlow
    rw [Scientific.ofDigits, List.length_drop]
    omega
  · exact Scientific.isNormal_ofDigits hlow (hbelow.mpr hstays) _ _
  · obtain rfl : r = 10 ^ (places + 1) := by
      have hnot : ¬ r < 10 ^ (places + 1) := fun h => hten (hbelow.mp h)
      omega
    rw [Scientific.ofDigits_ten]
    exact ⟨rfl, rfl⟩

end Decimal

end LoopTiling
