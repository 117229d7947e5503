import LoopTiling.Proofs.Index
import LoopTiling.Proofs.Radix.Numbering
import LoopTiling.Space.Factors

/-!
# Factors of all dimensions

The digits of an index over the sizes of the seven tables name a row of each table. If the rows of every
table are numbered by their places, then the families with a row for each dimension are numbered by the
indices of the space.
-/
namespace LoopTiling

theorem bijOn_of_comp {α β γ : Type*} {f : α → β} {g : β → γ} {s : Set α} {t : Set γ}
    (hg : Function.Injective g) (h : Set.BijOn (g ∘ f) s t) : Set.BijOn f s (Set.preimage g t) := by
  refine ⟨fun i hi => h.mapsTo hi, h.injOn.of_comp, ?_⟩
  intro b hb
  obtain ⟨i, hi, he⟩ := h.surjOn hb
  exact ⟨i, hi, hg he⟩

theorem Counter.ofSizes_eq_ok [Text.DigitLimit] {sizes : List ℕ} {c : Counter} :
    ofSizes sizes = .ok c ↔ (∀ n ∈ sizes, 0 < n) ∧ c = ⟨sizes⟩ := by
  have hradix (axis n r : ℕ) : checkRadix axis (.int n) = .ok r ↔ 0 < n ∧ r = n := by
    have hsame : (Value.int n).same (.int n) = true := by simp [Value.same, Value.sameInt, Value.index?]
    simp only [checkRadix, Value.toWhole, Value.index?, ok_bind, hsame, Bool.not_true,
      Bool.false_or, decide_eq_true_eq, refuse_eq_ok, pure_eq_ok, Int.toNat_natCast]
    omega
  have hradices (axis : ℕ) (rs : List ℕ) :
      checkRadices axis (sizes.map fun (n : ℕ) => .int n) = .ok rs ↔
        (∀ n ∈ sizes, 0 < n) ∧ rs = sizes := by
    induction sizes generalizing axis rs with
    | nil => simp [checkRadices, eq_comm]
    | cons n sizes ih =>
      simp only [List.map_cons, checkRadices, bind_eq_ok, hradix, ih, pure_eq_ok,
        List.forall_mem_cons]
      constructor
      · rintro ⟨_, ⟨hn, rfl⟩, _, ⟨hall, rfl⟩, rfl⟩
        exact ⟨⟨hn, hall⟩, rfl⟩
      · rintro ⟨⟨hn, hall⟩, rfl⟩
        exact ⟨_, ⟨hn, rfl⟩, _, ⟨hall, rfl⟩, rfl⟩
  simp only [ofSizes, bind_eq_ok, hradices, pure_eq_ok]
  constructor
  · rintro ⟨_, ⟨hall, rfl⟩, rfl⟩
    exact ⟨hall, rfl⟩
  · rintro ⟨hall, rfl⟩
    exact ⟨_, ⟨hall, rfl⟩, rfl⟩

namespace PerDim

variable {α : Type}

theorem toList_injective : Function.Injective (toList : PerDim α → List α) := by
  intro v w h
  rw [toList_eq, toList_eq, List.map_inj_left] at h
  exact ext_get fun d => h d (Dim.mem_all d)

theorem toList_ofFn_getD (f : Dim → ℕ → α) {ds : List ℕ} (h : ds.length = Dim.count) :
    (ofFn fun d => f d (ds.getD d.index 0)).toList = List.zipWith f Dim.all ds := by
  match ds, h with
  | [_, _, _, _, _, _, _], _ => rfl

theorem forall₂_toList {S : Dim → Set α} {v : PerDim α} :
    List.Forall₂ (fun d a => a ∈ S d) Dim.all v.toList ↔ ∀ d, v.get d ∈ S d := by
  rw [toList_eq, List.forall₂_map_right_iff, List.forall₂_same]
  exact ⟨fun h d => h d (Dim.mem_all d), fun h d _ => h d⟩

end PerDim

namespace FactorSpace

def rowsAt (tables : PerDim FactorTable) (i : ℕ) : PerDim (List ℕ) :=
  .ofFn fun d => (tables.get d).row ((Radix.digits (sizes tables) i).getD d.index 0)

theorem sizes_eq (tables : PerDim FactorTable) :
    sizes tables = Dim.all.map fun d => (tables.get d).size := by
  rw [sizes, PerDim.toList_eq, List.map_map]
  rfl

theorem length_sizes (tables : PerDim FactorTable) : (sizes tables).length = Dim.count := by
  rw [sizes_eq, List.length_map, Dim.length_all]

/-- Every family of rows has exactly one index. -/
theorem bijOn_rowsAt (tables : PerDim FactorTable) {S : Dim → Set (List ℕ)}
    (h : ∀ d, Set.BijOn (tables.get d).row (Set.Iio (tables.get d).size) (S d)) :
    Set.BijOn (rowsAt tables) (Set.Iio (Radix.volume (sizes tables)))
      {rows | ∀ d, rows.get d ∈ S d} := by
  have hlist : Set.BijOn (PerDim.toList ∘ rowsAt tables)
      (Set.Iio (Radix.volume (sizes tables)))
      {os | List.Forall₂ (fun d o => o ∈ S d) Dim.all os} := by
    have hdigits (i : ℕ) : (Radix.digits (sizes tables) i).length = Dim.count := by
      rw [Radix.length_digits, length_sizes]
    have hrows (i : ℕ) : (rowsAt tables i).toList = List.zipWith (fun d => (tables.get d).row)
        Dim.all (Radix.digits (sizes tables) i) :=
      PerDim.toList_ofFn_getD (fun d => (tables.get d).row) (hdigits i)
    have hnum := Radix.bijOn_zipWith_digits Dim.all fun d _ => h d
    rw [← sizes_eq] at hnum
    exact hnum.congr fun i _ => (hrows i).symm
  have hset : {rows : PerDim (List ℕ) | ∀ d, rows.get d ∈ S d} =
      Set.preimage PerDim.toList {os | List.Forall₂ (fun d o => o ∈ S d) Dim.all os} := by
    ext rows
    exact PerDim.forall₂_toList.symm
  rw [hset]
  exact bijOn_of_comp PerDim.toList_injective hlist

theorem size_some (tables : PerDim FactorTable) :
    (FactorSpace.mk (some tables)).size = Radix.volume (sizes tables) := rfl

theorem decode_some {tables : PerDim FactorTable} {i : ℕ} (hi : i < Radix.volume (sizes tables)) :
    (FactorSpace.mk (some tables)).decode (.int i) = .ok (rowsAt tables i) := by
  simp only [decode, rowsFor, Value.placeIn_natCast hi, ok_bind]
  simp only [pure, Except.pure, ok_bind, PerDim.get_ofFn]
  rfl

theorem nameDim_eq_ok [Text.DigitLimit] {α : Type} {d : Dim} {x : Except Fault α} {a : α} :
    nameDim d x = .ok a ↔ x = .ok a := by
  cases x <;> simp [nameDim]

end FactorSpace

end LoopTiling
