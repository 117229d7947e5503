import Mathlib.Data.List.Pairwise
import LoopTiling.Proofs.Radix.Ranking

/-!
# Ranks of distinct items

Where every item is equal to itself only, ranks and arrangements determine each other: an arrangement of the
items has the one rank below the factorial that names it, and any whole number counts as its remainder. So
arranging the items before a cut by any whole number leaves behind the cut what was there, and in front of it
the arrangement whose rank is the remainder.
-/
namespace LoopTiling

namespace Value

/-- Items each of which is equal to itself and to no other one. -/
structure AreDistinct (items : List Value) : Prop where
  self : ∀ v ∈ items, v.equal v = .ok true
  apart : items.Pairwise fun v w => v.equal w = .ok false ∧ w.equal v = .ok false

variable {items vs ws : List Value}

theorem AreDistinct.sublist (h : AreDistinct items) (hs : vs.Sublist items) : AreDistinct vs :=
  ⟨fun v hv => h.self v (hs.subset hv), h.apart.sublist hs⟩

theorem AreDistinct.nodup (h : AreDistinct items) : items.Nodup := by
  refine h.apart.imp_of_mem fun hv _ hdiffer he => ?_
  have hself := h.self _ hv
  rw [← he, hself] at hdiffer
  exact absurd hdiffer.1 (by simp)

theorem AreDistinct.eq_or_differ (h : AreDistinct items) {v w : Value} (hv : v ∈ items)
    (hw : w ∈ items) : v = w ∨ v.equal w = .ok false := by
  have : Std.Symm fun v w : Value => v.equal w = .ok false ∧ w.equal v = .ok false :=
    ⟨fun _ _ he => he.symm⟩
  by_cases hsame : v = w
  · exact .inl hsame
  · exact .inr (h.apart.forall hv hw hsame).1

theorem AreDistinct.eq_of_equal (h : AreDistinct items) {v w : Value} (hv : v ∈ items)
    (hw : w ∈ items) (he : v.equal w = .ok true) : v = w := by
  rcases h.eq_or_differ hv hw with hsame | hdiffer
  · exact hsame
  · rw [he] at hdiffer
    cases hdiffer

theorem AreDistinct.comparable (h : AreDistinct items) (hs : vs ⊆ items) : Comparable vs where
  decided v hv w hw := by
    rcases h.eq_or_differ (hs hv) (hs hw) with rfl | hdiffer
    · exact ⟨true, h.self v (hs hv)⟩
    · exact ⟨false, hdiffer⟩
  refl v hv := h.self v (hs hv)
  symm v hv w hw he := by
    obtain rfl := h.eq_of_equal (hs hv) (hs hw) he
    exact he
  trans u hu v hv w hw huv hvw := by
    obtain rfl := h.eq_of_equal (hs hu) (hs hv) huv
    exact hvw

theorem AreDistinct.eq_of_forall₂ (h : AreDistinct items) (hvs : vs ⊆ items) (hws : ws ⊆ items)
    (he : List.Forall₂ (fun v w => v.equal w = .ok true) vs ws) : vs = ws := by
  induction he with
  | nil => rfl
  | cons hvw _ ih =>
    rw [List.cons_subset] at hvs hws
    rw [h.eq_of_equal hvs.1 hws.1 hvw, ih hvs.2 hws.2]

theorem cutPlace_eq (n : ℕ) (cut : ℤ) :
    (cutPlace n cut : ℤ) = max 0 (min (n : ℤ) (if cut < 0 then n + cut else cut)) := by
  rw [cutPlace]
  split <;> omega

end Value

namespace Radix

open Value

variable {items order : List Value}

/-- Every arrangement of distinct items has the rank that names it. -/
theorem exists_rank (h : AreDistinct items) (hperm : order.Perm items) :
    ∃ rank < factorial items.length, rankValues items order = .ok rank ∧
      unrank items rank = order := by
  have hcomparable : Comparable (items ++ order) :=
    h.comparable (List.append_subset.mpr ⟨List.Subset.refl _, hperm.subset⟩)
  have hsame : SameContents items order := fun v _ => (hperm.countP_eq _).symm
  obtain ⟨hlen, rank, hrank⟩ := exists_rankOf hcomparable hsame
  obtain ⟨hlt, hequal⟩ := finds_placeOf.of_rankOf hlen hrank
  refine ⟨rank, hlt, rankValues_eq_ok.mpr ⟨hlen, hrank⟩, ?_⟩
  exact h.eq_of_forall₂ (perm_unrank items rank).subset hperm.subset hequal

/-- The arrangement that a whole number names has its remainder as rank. -/
theorem rankValues_unrank (h : AreDistinct items) (rank : ℤ) :
    rankValues items (unrank items rank) = .ok (rank % factorial items.length).toNat := by
  have hpos : (0 : ℤ) < factorial items.length := Int.natCast_pos.mpr (factorial_pos _)
  have hnonneg := Int.emod_nonneg rank hpos.ne'
  have hmod : (rank % factorial items.length).toNat < factorial items.length := by
    have hlt := Int.emod_lt_of_pos rank hpos
    omega
  obtain ⟨found, hlt, hfound, hnames⟩ := exists_rank h (perm_unrank items rank)
  have hsame : unrank items found = unrank items (rank % factorial items.length).toNat := by
    rw [hnames, Int.toNat_of_nonneg hnonneg, unrank_emod]
  rw [hfound, (bijOn_unrank h.nodup).injOn hlt hmod hsame]

theorem permuteValues_of_index? (items : List Value) {v cut : Value} {rank m : ℤ}
    (hv : v.index? = some rank) (hcut : cut.index? = some m) :
    permuteValues (.list items) v cut = .ok (permute items rank m) := by
  have hunrank := unrankValue_of_index? (items.take (cutPlace items.length m)) hv
  cases cut with
  | flag | int | word | dim =>
    obtain rfl := Option.some.inj hcut
    exact map_eq_ok.mpr ⟨_, hunrank, rfl⟩
  | _ => cases hcut

/-- The ranks below the factorial number the arrangements of distinct items, with the ranking of
arrangements as inverse, and whole numbers that agree modulo the factorial name the same arrangement.
Arranging the items before a cut, which counts from the end when it is negative, leaves those behind it. -/
theorem ranks_number_arrangements (h : AreDistinct items) :
    Set.BijOn (fun rank : ℕ => unrankValue items (.int rank)) (Set.Iio (factorial items.length))
      {out | ∃ order, order.Perm items ∧ out = .ok order} ∧
    (∀ rank < factorial items.length, ∃ order, unrankValue items (.int rank) = .ok order ∧
      rankValues items order = .ok rank) ∧
    (∀ order, order.Perm items → ∃ rank, rankValues items order = .ok rank ∧
      unrankValue items (.int rank) = .ok order) ∧
    (∀ (v : Value) (rank : ℤ), v.index? = some rank →
      unrankValue items v = unrankValue items (.int (rank % factorial items.length))) ∧
    ∀ (v cut : Value) (rank m : ℤ), v.index? = some rank → cut.index? = some m →
      ∃ place : ℕ,
        (place : ℤ) = max 0 (min (items.length : ℤ) (if m < 0 then items.length + m else m)) ∧
        ∃ order, permuteValues (.list items) v cut = .ok (order ++ items.drop place) ∧
          order.Perm (items.take place) ∧
          rankValues (items.take place) order = .ok (rank % factorial place).toNat := by
  have hunrank (rank : ℤ) : unrankValue items (.int rank) = .ok (unrank items rank) :=
    unrankValue_of_index? items rfl
  refine ⟨?_, fun rank hlt => ?_, fun order hperm => ?_, fun v rank hv => ?_, ?_⟩
  · exact bijOn_ok (bijOn_unrank h.nodup) fun rank _ => hunrank rank
  · have hmod : ((rank : ℤ) % factorial items.length).toNat = rank := by
      rw [← Int.natCast_emod, Int.toNat_natCast, Nat.mod_eq_of_lt hlt]
    exact ⟨_, hunrank rank, (rankValues_unrank h rank).trans (congrArg Except.ok hmod)⟩
  · obtain ⟨rank, -, hrank, rfl⟩ := exists_rank h hperm
    exact ⟨rank, hrank, hunrank rank⟩
  · rw [hunrank, unrank_emod, unrankValue_of_index? items hv]
  · intro v cut rank m hv hcut
    have hplace := cutPlace_eq items.length m
    have hlen : (items.take (cutPlace items.length m)).length = cutPlace items.length m := by
      rw [List.length_take]
      omega
    have hrank := rankValues_unrank (h.sublist (List.take_sublist (cutPlace items.length m) items)) rank
    rw [hlen] at hrank
    exact ⟨_, hplace, _, permuteValues_of_index? items hv hcut, perm_unrank _ rank, hrank⟩

def distinctItems : List Value := [.text "a", .null, .int 3, .list [.flag true], .text ""]

/-- A cut of minus two leaves the last two of five items behind, and the rank counts modulo six. -/
theorem ranks_number_arrangements_sample :
    AreDistinct distinctItems ∧
    unrankValue distinctItems (.int (-1)) = unrankValue distinctItems (.int 119) ∧
    ∃ order, permuteValues (.list distinctItems) (.int (-1)) (.int (-2)) =
        .ok (order ++ [.list [.flag true], .text ""]) ∧
      order.Perm [.text "a", .null, .int 3] ∧
      rankValues [.text "a", .null, .int 3] order = .ok 5 := by
  have hdistinct : AreDistinct distinctItems := ⟨by decide +kernel, by decide +kernel⟩
  obtain ⟨-, -, -, hmod, hcut⟩ := ranks_number_arrangements hdistinct
  refine ⟨hdistinct, hmod (.int (-1)) (-1) rfl, ?_⟩
  obtain ⟨place, hplace, horder⟩ := hcut (.int (-1)) (.int (-2)) (-1) (-2) rfl rfl
  obtain rfl : place = 3 := Int.ofNat_inj.mp hplace
  exact horder

end Radix

end LoopTiling
