import Mathlib.Algebra.BigOperators.Group.List.Basic
import Mathlib.Data.List.Forall2
import Mathlib.Data.Set.Function
import Mathlib.Data.Set.NAry
import Mathlib.Data.Set.Prod
import Mathlib.Order.Interval.Set.Defs
import LoopTiling.Radix.Mixed

/-!
# Numberings by mixed radix digits

A numbering of a set is a bijection onto it from the naturals below its size. The remainder and the
quotient of a number by the size of a first axis number the pairs of a first and a second choice,
also where the second choice depends on the first. By induction the digits of a number over a list of
axes number the lists with one choice for each axis.
-/
namespace LoopTiling.Radix

variable {α β γ : Type*}

theorem volume_pos {rs : List ℕ} (h : ∀ r ∈ rs, 0 < r) : 0 < volume rs := by
  induction rs with
  | nil => exact Nat.one_pos
  | cons r rs ih =>
    exact Nat.mul_pos (h r List.mem_cons_self) (ih fun s hs => h s (List.mem_cons_of_mem r hs))

theorem volume_eq_prod (rs : List ℕ) : volume rs = rs.prod := by
  induction rs with
  | nil => rfl
  | cons r rs ih => rw [volume, List.prod_cons, ih]

theorem volume_map_le {xs : List β} {f g : β → ℕ} (h : ∀ x ∈ xs, f x ≤ g x) :
    volume (xs.map f) ≤ volume (xs.map g) := by
  induction xs with
  | nil => exact Nat.le_refl 1
  | cons x xs ih =>
    rw [List.forall_mem_cons] at h
    exact Nat.mul_le_mul h.1 (ih h.2)

theorem rank_digits_of_lt {rs : List ℕ} {i : ℕ} (hi : i < volume rs) : rank rs (digits rs i) = i := by
  rw [rank_digits, Nat.mod_eq_of_lt hi]

theorem getD_digits_lt {rs : List ℕ} (hpos : ∀ r ∈ rs, 0 < r) (i : ℕ) {k r : ℕ}
    (hk : rs[k]? = some r) : (digits rs i).getD k 0 < r := by
  induction rs generalizing i k with
  | nil => cases hk
  | cons r' rs ih =>
    rw [List.forall_mem_cons] at hpos
    cases k with
    | zero =>
      obtain rfl := Option.some.inj hk
      exact Nat.mod_lt i hpos.1
    | succ k => exact ih hpos.2 (i / r') hk

/-- A single choice is numbered by zero. -/
theorem bijOn_single {n : ℕ} (hn : n = 1) {f : ℕ → β} {S : Set β} (hS : S = {f 0}) :
    Set.BijOn f (Set.Iio n) S := by
  have hzero : Set.Iio n = {0} := by
    ext i
    simp [hn]
  rw [hzero, hS]
  exact Set.bijOn_singleton.mpr rfl

/-- A numbering by what a decoder returns. -/
theorem bijOn_ok {ε : Type*} {decode : ℕ → Except ε β} {f : ℕ → β} {s : Set ℕ} {S : Set β}
    (hf : Set.BijOn f s S) (hdecode : ∀ i ∈ s, decode i = .ok (f i)) :
    Set.BijOn decode s {r | ∃ b ∈ S, r = .ok b} := by
  refine ⟨?_, ?_, ?_⟩
  · intro i hi
    exact ⟨f i, hf.mapsTo hi, hdecode i hi⟩
  · intro i hi j hj he
    rw [hdecode i hi, hdecode j hj] at he
    exact hf.injOn hi hj (Except.ok.inj he)
  · rintro _ ⟨b, hb, rfl⟩
    obtain ⟨i, hi, rfl⟩ := hf.surjOn hb
    exact ⟨i, hi, hdecode i hi⟩

/-- What lies above the volume does not show in the digits. -/
theorem digits_mod_volume (rs : List ℕ) (i : ℕ) : digits rs (i % volume rs) = digits rs i := by
  induction rs generalizing i with
  | nil => rfl
  | cons r rs ih =>
    have hhead : i % (r * volume rs) % r = i % r := Nat.mod_mul_right_mod i r (volume rs)
    have htail : i % (r * volume rs) / r = i / r % volume rs := Nat.mod_mul_right_div_self i r _
    simp only [digits, volume, hhead, htail, ih]

theorem bijOn_divMod {n m : ℕ} {g : ℕ → ℕ → β} {T : ℕ → Set β}
    (hg : ∀ k < n, Set.BijOn (g k) (Set.Iio m) (T k)) :
    Set.BijOn (fun i => (i % n, g (i % n) (i / n))) (Set.Iio (n * m))
      {p | p.1 < n ∧ p.2 ∈ T p.1} := by
  have hpos {i : ℕ} (hi : i ∈ Set.Iio (n * m)) : 0 < n :=
    Nat.pos_of_mul_pos_right (Nat.zero_lt_of_lt hi)
  have hdiv {i : ℕ} (hi : i ∈ Set.Iio (n * m)) : i / n ∈ Set.Iio m := Nat.div_lt_of_lt_mul hi
  refine ⟨?_, ?_, ?_⟩
  · intro i hi
    have hk : i % n < n := Nat.mod_lt i (hpos hi)
    exact ⟨hk, (hg _ hk).mapsTo (hdiv hi)⟩
  · intro i hi j hj h
    obtain ⟨hk, ht⟩ := Prod.mk.inj h
    rw [← hk] at ht
    have hq := (hg _ (Nat.mod_lt i (hpos hi))).injOn (hdiv hi) (hdiv hj) ht
    rw [← Nat.mod_add_div i n, ← Nat.mod_add_div j n, hk, hq]
  · rintro ⟨k, t⟩ ⟨hk, ht⟩
    obtain ⟨q, hq, rfl⟩ := (hg k hk).surjOn ht
    have hmod : (k + n * q) % n = k := by rw [Nat.add_mul_mod_self_left, Nat.mod_eq_of_lt hk]
    have hquot : (k + n * q) / n = q := by
      rw [Nat.add_mul_div_left k q (Nat.zero_lt_of_lt hk), Nat.div_eq_of_lt hk, Nat.zero_add]
    refine ⟨k + n * q, ?_, ?_⟩
    · calc k + n * q < n * (q + 1) := by rw [Nat.mul_succ]; omega
        _ ≤ n * m := Nat.mul_le_mul_left n hq
    · simp only [hmod, hquot]

/-- Two numberings make a numbering of the pairs, the first one least significant. -/
theorem bijOn_pair {n m : ℕ} {f : ℕ → α} {g : ℕ → β} {S : Set α} {T : Set β}
    (hf : Set.BijOn f (Set.Iio n) S) (hg : Set.BijOn g (Set.Iio m) T) :
    Set.BijOn (fun i => (f (i % n), g (i / n))) (Set.Iio (n * m)) (S ×ˢ T) := by
  have hnum := bijOn_divMod (n := n) (g := fun _ => g) (T := fun _ => T) fun _ _ => hg
  exact (hf.prodMap (Set.bijOn_id T)).comp hnum

theorem bijOn_image2 {n m : ℕ} {f : ℕ → α} {g : ℕ → β} {c : α → β → γ} {S : Set α} {T : Set β}
    (hc : Function.Injective2 c) (hf : Set.BijOn f (Set.Iio n) S)
    (hg : Set.BijOn g (Set.Iio m) T) :
    Set.BijOn (fun i => c (f (i % n)) (g (i / n))) (Set.Iio (n * m)) (Set.image2 c S T) := by
  have himage : Set.BijOn (fun p : α × β => c p.1 p.2) (S ×ˢ T) (Set.image2 c S T) := by
    rw [← Set.image_prod]
    exact (hc.uncurry.injOn).bijOn_image
  exact himage.comp (bijOn_pair hf hg)

/-- One numbering for each axis makes a numbering of the lists with one choice for each axis: each
axis reads its own digit. -/
theorem bijOn_zipWith_digits {size : β → ℕ} {f : β → ℕ → α} {S : β → Set α} (xs : List β)
    (h : ∀ x ∈ xs, Set.BijOn (f x) (Set.Iio (size x)) (S x)) :
    Set.BijOn (fun i => List.zipWith f xs (digits (xs.map size) i))
      (Set.Iio (volume (xs.map size))) {os | List.Forall₂ (fun x o => o ∈ S x) xs os} := by
  induction xs with
  | nil =>
    have hnil : {os : List α | List.Forall₂ (fun x o => o ∈ S x) [] os} = {[]} := by
      ext os
      simp
    exact bijOn_single rfl hnil
  | cons x xs ih =>
    have hhead := h x List.mem_cons_self
    have htail := ih fun y hy => h y (List.mem_cons_of_mem x hy)
    have hcons : {os | List.Forall₂ (fun y o => o ∈ S y) (x :: xs) os} =
        Set.image2 List.cons (S x) {os | List.Forall₂ (fun y o => o ∈ S y) xs os} := by
      ext os
      simp only [List.forall₂_cons_left_iff, Set.mem_ofPred_eq, Set.mem_image2]
      constructor
      · rintro ⟨o, os', ho, hos, rfl⟩
        exact ⟨o, ho, os', hos, rfl⟩
      · rintro ⟨o, ho, os', hos, rfl⟩
        exact ⟨o, os', ho, hos, rfl⟩
    rw [hcons]
    exact bijOn_image2 (fun _ _ _ _ he => List.cons.inj he) hhead htail

/-- The ranks below the volume number the lists of digits. -/
theorem bijOn_digits (rs : List ℕ) : Set.BijOn (digits rs) (Set.Iio (volume rs))
    {ds | List.Forall₂ (fun r d => d < r) rs ds} := by
  have hnum := bijOn_zipWith_digits (f := fun _ d => d) (S := Set.Iio) rs
    fun r _ => Set.bijOn_id (Set.Iio r)
  rw [List.map_id'] at hnum
  refine hnum.congr fun i _ => ?_
  change List.zipWith (fun _ d => d) rs (digits rs i) = digits rs i
  rw [← List.map_uncurry_zip_eq_zipWith]
  exact List.map_snd_zip (length_digits rs i).le

end LoopTiling.Radix
