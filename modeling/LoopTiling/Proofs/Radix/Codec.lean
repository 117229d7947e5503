import LoopTiling.Proofs.Printing
import LoopTiling.Proofs.Radix.Encoding

/-!
# Decoding and encoding whole numbers

Over positive radices every whole number has digits, also one that is negative or too large: they are
those of its remainder by the product of the radices. Digits and the ranks below the product determine
each other. The axes behind a cut read the floor of the quotient by the product of the radices in front of
it, so an axis of radix one adds a zero and changes no other digit.
-/
namespace LoopTiling.Radix

/-- The digits of a whole number of any sign. -/
def wholeDigits : List ℕ → ℤ → List ℤ
  | [], _ => []
  | r :: rs, n => n % r :: wholeDigits rs (n / r)

theorem length_wholeDigits (rs : List ℕ) (n : ℤ) : (wholeDigits rs n).length = rs.length := by
  induction rs generalizing n with
  | nil => rfl
  | cons r rs ih => rw [wholeDigits, List.length_cons, List.length_cons, ih]

theorem areDigits_wholeDigits {rs : List ℕ} (hpos : ∀ r ∈ rs, 0 < r) (n : ℤ) :
    AreDigits rs (wholeDigits rs n) := by
  induction rs generalizing n with
  | nil => exact List.Forall₂.nil
  | cons r rs ih =>
    rw [List.forall_mem_cons] at hpos
    have hr : (0 : ℤ) < r := Int.natCast_pos.mpr hpos.1
    exact .cons ⟨Int.emod_nonneg n hr.ne', Int.emod_lt_of_pos n hr⟩ (ih hpos.2 _)

theorem wholeDigits_natCast (rs : List ℕ) (i : ℕ) :
    wholeDigits rs i = (digits rs i).map fun (d : ℕ) => (d : ℤ) := by
  induction rs generalizing i with
  | nil => rfl
  | cons r rs ih => rw [wholeDigits, digits, List.map_cons, ← Int.natCast_mod, ← Int.natCast_ediv, ih]

theorem wholeDigits_append (rs ss : List ℕ) (n : ℤ) :
    wholeDigits (rs ++ ss) n = wholeDigits rs n ++ wholeDigits ss (n / rs.prod) := by
  induction rs generalizing n with
  | nil => simp [wholeDigits]
  | cons r rs ih =>
    rw [List.cons_append, wholeDigits, wholeDigits, ih, List.prod_cons, Nat.cast_mul,
      Int.ediv_ediv_of_nonneg (Int.natCast_nonneg r), List.cons_append]

theorem wholeDigits_replicate_one (k : ℕ) (n : ℤ) :
    wholeDigits (List.replicate k 1) n = List.replicate k 0 := by
  induction k generalizing n with
  | zero => rfl
  | succ k ih =>
    rw [List.replicate_succ, wholeDigits, Nat.cast_one, Int.emod_one, Int.ediv_one, ih,
      List.replicate_succ]

/-- Digits lose nothing of a whole number but the part that no axis holds. -/
theorem rank_wholeDigits {rs : List ℕ} (hpos : ∀ r ∈ rs, 0 < r) (n : ℤ) :
    (rank rs ((wholeDigits rs n).map Int.toNat) : ℤ) = n % rs.prod := by
  induction rs generalizing n with
  | nil => simp [rank]
  | cons r rs ih =>
    rw [List.forall_mem_cons] at hpos
    have hr : (0 : ℤ) < r := Int.natCast_pos.mpr hpos.1
    have hlow : ((n % r).toNat : ℤ) = n % r := Int.toNat_of_nonneg (Int.emod_nonneg n hr.ne')
    rw [wholeDigits, List.map_cons, rank, Nat.cast_add, Nat.cast_mul, hlow, ih hpos.2,
      List.prod_cons, Nat.cast_mul]
    simp only [Int.emod_def, Int.ediv_ediv_of_nonneg hr.le]
    rw [mul_sub, sub_add_sub_cancel, mul_assoc]

theorem wholeDigits_rank {rs : List ℕ} {ds : List ℤ} (h : AreDigits rs ds) :
    wholeDigits rs (rank rs (ds.map Int.toNat)) = ds := by
  rw [wholeDigits_natCast, digits_rank h]
  induction h with
  | nil => rfl
  | cons hd _ ih => rw [List.map_cons, List.map_cons, ih, Int.toNat_of_nonneg hd.1]

section Values

variable {radices : List Value} {rs : List ℕ}

theorem decode_int (hr : List.Forall₂ (fun v (r : ℕ) => v.IsInteger r) radices rs)
    (hpos : ∀ r ∈ rs, 0 < r) (n : ℤ) :
    decode radices (.int n) = .ok ((wholeDigits rs n).map .int) := by
  induction hr generalizing n with
  | nil => rfl
  | @cons radix r radices rs hradix _ ih =>
    rw [List.forall_mem_cons] at hpos
    have hr : r ≠ 0 := hpos.1.ne'
    have hdivMod : (Number.int n).divMod (.int r) = .ok (.int (n / r), .int (n % r)) := by
      simp [Number.divMod, Number.meet, hr, ok_bind, Int.fdiv_eq_ediv_of_nonneg,
        Int.fmod_eq_emod_of_nonneg]
    rw [decode, Value.asNumber_of_number? hradix, ok_bind, hdivMod, ok_bind]
    simp only [ih hpos.2, ok_bind]
    rfl

theorem decodeValue_integer (hr : List.Forall₂ (fun v (r : ℕ) => v.IsInteger r) radices rs)
    (hpos : ∀ r ∈ rs, 0 < r) {v : Value} {n : ℤ} (hv : v.IsInteger n) :
    decodeValue radices v = .ok ((wholeDigits rs n).map .int) := by
  rw [decodeValue, Value.asNumber_of_number? hv, ok_bind, decode_int hr hpos]
  cases hr <;> rfl

variable [Text.DigitLimit]

theorem encode_integers (hr : List.Forall₂ (fun v (r : ℕ) => v.IsInteger r) radices rs)
    {digits : List Value} {ds : List ℤ} (hd : List.Forall₂ Value.IsInteger digits ds) :
    (AreDigits rs ds ∧ encode radices digits = .ok (.int (rank rs (ds.map Int.toNat)))) ∨
      (¬ AreDigits rs ds ∧ ∃ fault, encode radices digits = .error fault ∧ fault.kind = .value) := by
  rw [encode]
  by_cases hlen : digits.length = radices.length
  · rw [if_pos hlen]
    have hlen' : ds.length = rs.length := by rw [← hd.length_eq, hlen, hr.length_eq]
    rcases encodeFrom_integers hr hd hlen' with hok | ⟨hds, d, r, herr⟩
    · exact .inl hok
    · exact .inr ⟨hds, _, herr, Fault.kind_eq_value rfl⟩
  · rw [if_neg hlen]
    refine .inr ⟨fun hds => hlen ?_, _, rfl, Fault.kind_eq_value rfl⟩
    rw [hd.length_eq, hr.length_eq, hds.length_eq]

/-- What it is to decode and to encode whole numbers over positive radices. -/
structure IsCodec (radices : List Value) (rs : List ℕ) : Prop where
  encode_decode : ∀ v n, v.IsInteger n → ∃ ds : List ℤ, decodeValue radices v = .ok (ds.map .int) ∧
    AreDigits rs ds ∧ encode radices (ds.map .int) = .ok (.int (n % rs.prod))
  decode_encode : ∀ digits ds, List.Forall₂ Value.IsInteger digits ds → AreDigits rs ds →
    ∃ i : ℕ, encode radices digits = .ok (.int i) ∧ i < rs.prod ∧
      decodeValue radices (.int i) = .ok (ds.map .int)
  refuses : ∀ digits ds, List.Forall₂ Value.IsInteger digits ds → ¬ AreDigits rs ds →
    ∃ fault, encode radices digits = .error fault ∧ fault.kind = .value
  /-- The axes behind a cut read the floor of a quotient. -/
  cut : ∀ v n, v.IsInteger n → ∀ place, decodeValue radices v = (do
    let low ← decodeValue (radices.take place) v
    let high ← decodeValue (radices.drop place) (.int (n / (rs.take place).prod))
    return low ++ high)
  /-- Axes of radix one read a zero, and the others read what they read without them. -/
  ones : ∀ v n, v.IsInteger n → ∀ place count, ∃ low high, low.length = min place rs.length ∧
    decodeValue radices v = .ok (low ++ high) ∧
    decodeValue (radices.take place ++ (List.replicate count (.int 1) ++ radices.drop place)) v =
      .ok (low ++ (List.replicate count (.int 0) ++ high))

/-- Over positive radices every whole number is decoded, and encoded up to their product. -/
theorem isCodec_of_pos (hr : List.Forall₂ (fun v (r : ℕ) => v.IsInteger r) radices rs)
    (hpos : ∀ r ∈ rs, 0 < r) : IsCodec radices rs where
  encode_decode v n hv := by
    have hds := areDigits_wholeDigits hpos n
    refine ⟨wholeDigits rs n, decodeValue_integer hr hpos hv, hds, ?_⟩
    rcases encode_integers hr (forall₂_isInteger_digits _) with ⟨-, hok⟩ | ⟨hnot, -⟩
    · rw [hok, rank_wholeDigits hpos]
    · exact absurd hds hnot
  decode_encode digits ds hd hds := by
    refine ⟨rank rs (ds.map Int.toNat), ?_, volume_eq_prod rs ▸ rank_lt_volume hds, ?_⟩
    · rcases encode_integers hr hd with ⟨-, hok⟩ | ⟨hnot, -⟩
      · exact hok
      · exact absurd hds hnot
    · rw [decodeValue_integer hr hpos (Value.isInteger_int _), wholeDigits_rank hds]
  refuses digits ds hd hds := by
    rcases encode_integers hr hd with ⟨hin, -⟩ | ⟨-, herr⟩
    · exact absurd hin hds
    · exact herr
  cut v n hv place := by
    have hlow := decodeValue_integer (List.forall₂_take place hr)
      (fun r h => hpos r (List.mem_of_mem_take h)) hv
    have hhigh := decodeValue_integer (List.forall₂_drop place hr)
      (fun r h => hpos r (List.mem_of_mem_drop h)) (Value.isInteger_int (n / (rs.take place).prod))
    rw [hlow, ok_bind, hhigh, ok_bind, decodeValue_integer hr hpos hv]
    rw [← List.map_append, ← wholeDigits_append, List.take_append_drop]
    rfl
  ones v n hv place count := by
    have hones := forall₂_isInteger_radices (List.replicate count 1)
    rw [List.map_replicate, Nat.cast_one] at hones
    have hlonger := List.rel_append (List.forall₂_take place hr)
      (List.rel_append hones (List.forall₂_drop place hr))
    have hlongerPos : ∀ r ∈ rs.take place ++ (List.replicate count 1 ++ rs.drop place), 0 < r := by
      simp only [List.mem_append]
      rintro r (h | h | h)
      · exact hpos r (List.mem_of_mem_take h)
      · rw [List.eq_of_mem_replicate h]
        exact Nat.one_pos
      · exact hpos r (List.mem_of_mem_drop h)
    refine ⟨(wholeDigits (rs.take place) n).map .int,
      (wholeDigits (rs.drop place) (n / (rs.take place).prod)).map .int, ?_, ?_, ?_⟩
    · rw [List.length_map, length_wholeDigits, List.length_take]
    · rw [decodeValue_integer hr hpos hv, ← List.map_append, ← wholeDigits_append,
        List.take_append_drop]
    · rw [decodeValue_integer hlonger hlongerPos hv, wholeDigits_append, wholeDigits_append,
        wholeDigits_replicate_one, List.prod_replicate, one_pow, Nat.cast_one, Int.ediv_one,
        List.map_append, List.map_append, List.map_replicate]

end Values

/-- The digits of a negative number, and of the number it is encoded to. -/
theorem isCodec_of_pos_sample : IsCodec [.int 3, .int 1, .int 4] [3, 1, 4] ∧
    decodeValue [.int 3, .int 1, .int 4] (.int (-1)) = .ok [.int 2, .int 0, .int 3] ∧
    encode [.int 3, .int 1, .int 4] [.int 2, .int 0, .int 3] = .ok (.int 11) := by
  have hcodec : IsCodec [.int 3, .int 1, .int 4] [3, 1, 4] :=
    isCodec_of_pos (forall₂_isInteger_radices [3, 1, 4]) (by decide)
  exact ⟨hcodec, rfl, rfl⟩

end LoopTiling.Radix
