import LoopTiling.Proofs.MapSpace.Members

/-!
# Members as plans

A member of a mapspace is given by the factors of the dimensions, an order for each level and a split for
each spatial level. The levels are set independently of each other: a plan that fits stays one when one
level gets another order that it may have.
-/
namespace LoopTiling

/-- Factors for all dimensions, and an order and a split for each level by its place. -/
structure Plan where
  factors : PerDim (List ℕ)
  order : ℕ → List Dim
  split : ℕ → Numeral

namespace Plan

/-- The member that a plan makes; the split of a temporal level is left out. -/
def toAssignment (h : Hierarchy) (p : Plan) : Assignment where
  factors := p.factors
  orders := h.levels.zipIdx.map fun e => p.order e.2
  splits := h.spatialLevels.map fun e => (.plain e.2, p.split e.2)

/-- The plans that make a member of a mapspace. -/
structure Fits (w : Workload) (h : Hierarchy) (p : Plan) : Prop where
  factors : ∀ d, MapSpace.Tiles w h d (p.factors.get d)
  order : ∀ e ∈ h.levels.zipIdx, MapSpace.OrderFits w h e.1 (p.order e.2)
  split : ∀ e ∈ h.spatialLevels, MapSpace.SplitFits w h e.1 (p.split e.2)

/-- The factor of a dimension at a place. -/
def factorAt (p : Plan) (k : ℕ) (d : Dim) : ℕ := (p.factors.get d).getD k 1

/-- The number of dimensions on the X axis of the level at a place. -/
def cut (p : Plan) (k : ℕ) : ℕ := (p.split k).toInt.toNat

/-- The products of the factors before and behind the cut of a place. -/
def instances (p : Plan) (k : ℕ) : ℕ × ℕ :=
  ((((p.order k).take (p.cut k)).map (p.factorAt k)).prod,
    (((p.order k).drop (p.cut k)).map (p.factorAt k)).prod)

def withOrder (p : Plan) (k : ℕ) (o : List Dim) : Plan := { p with order := Function.update p.order k o }

end Plan

/-- What is related item by item to items with different places is a function of the places. -/
theorem exists_forall₂_choice {α β : Type} [Inhabited β] {R : α × ℕ → β → Prop}
    {es : List (α × ℕ)} {ys : List β} (hd : (es.map Prod.snd).Nodup) (h : List.Forall₂ R es ys) :
    ∃ f : ℕ → β, ys = es.map (fun e => f e.2) ∧ ∀ e ∈ es, R e (f e.2) := by
  induction h with
  | nil => exact ⟨fun _ => default, rfl, by simp⟩
  | @cons e y es ys hy _ ih =>
    rw [List.map_cons, List.nodup_cons] at hd
    obtain ⟨f, rfl, hf⟩ := ih hd.2
    -- Places differ, so the value at this one can be set without touching the others.
    have hother : ∀ e' ∈ es, Function.update f e.2 y e'.2 = f e'.2 := fun e' he' =>
      Function.update_of_ne (fun he => hd.1 (List.mem_map.mpr ⟨e', he', he⟩)) y f
    refine ⟨Function.update f e.2 y, ?_, List.forall_mem_cons.mpr ⟨?_, fun e' he' => ?_⟩⟩
    · rw [List.map_cons, Function.update_self, List.map_congr_left hother]
    · rw [Function.update_self]
      exact hy
    · rw [hother e' he']
      exact hf e' he'

theorem Hierarchy.nodup_places (h : Hierarchy) : (h.levels.zipIdx.map Prod.snd).Nodup := by
  rw [List.zipIdx_map_snd]
  exact List.nodup_range'

theorem Hierarchy.nodup_spatialPlaces (h : Hierarchy) : (h.spatialLevels.map Prod.snd).Nodup :=
  h.nodup_places.sublist (List.filter_sublist.map Prod.snd)

theorem fst_eq_of_mem_zipIdx {α : Type} {xs : List α} {e e' : α × ℕ} (he : e ∈ xs.zipIdx)
    (he' : e' ∈ xs.zipIdx) (hplace : e.2 = e'.2) : e.1 = e'.1 := by
  rw [List.mem_zipIdx_iff_getElem?] at he he'
  rw [hplace, he'] at he
  exact (Option.some.inj he).symm

namespace Plan

variable {w : Workload} {h : Hierarchy} {p : Plan} {e : Level × ℕ}

theorem Fits.split_range (hp : p.Fits w h) (hrange : ∀ l ∈ h.levels, MapSpace.SplitInRange l)
    (he : e ∈ h.spatialLevels) : 0 ≤ (p.split e.2).toInt ∧ (p.split e.2).toInt ≤ Dim.count := by
  obtain ⟨hmem, hspatial⟩ := List.mem_filter.mp he
  have hfits := hp.split e he
  rw [MapSpace.SplitFits] at hfits
  split at hfits
  · next given hgiven =>
    rw [hfits]
    exact hrange e.1 (List.mem_of_getElem? (List.mem_zipIdx_iff_getElem?.mp hmem)) hspatial given hgiven
  · obtain ⟨n, hn, hle, hcount⟩ := hfits
    rw [hn, Numeral.toInt_plain]
    omega

theorem Fits.isFor (hp : p.Fits w h) : (p.toAssignment h).IsFor w h := by
  refine ⟨hp.factors, ?_, ?_⟩
  · have hentries : List.Forall₂ (fun (e : Level × ℕ) o => MapSpace.OrderFits w h e.1 o)
        h.levels.zipIdx (p.toAssignment h).orders := by
      rw [toAssignment, List.forall₂_map_right_iff, List.forall₂_same]
      exact hp.order
    rw [← List.forall₂_map_left_iff (f := Prod.fst), List.zipIdx_map_fst] at hentries
    exact hentries
  · rw [toAssignment, List.forall₂_map_right_iff, List.forall₂_same]
    exact fun e he => ⟨rfl, hp.split e he⟩

theorem exists_eq_toAssignment {a : Assignment} (ha : a.IsFor w h) :
    ∃ p : Plan, p.Fits w h ∧ a = p.toAssignment h := by
  have horders := ha.orders
  rw [← List.zipIdx_map_fst 0 h.levels, List.forall₂_map_left_iff] at horders
  obtain ⟨order, ho, hfits⟩ := exists_forall₂_choice h.nodup_places horders
  obtain ⟨f, hs, hsplit⟩ := exists_forall₂_choice h.nodup_spatialPlaces ha.splits
  refine ⟨⟨a.factors, order, fun k => (f k).2⟩,
    ⟨ha.factors, hfits, fun e he => (hsplit e he).2⟩, ?_⟩
  have hpairs : ∀ e ∈ h.spatialLevels, f e.2 = (.plain e.2, (f e.2).2) :=
    fun e he => Prod.ext (hsplit e he).1 rfl
  rw [toAssignment, ← ho, ← List.map_congr_left hpairs, ← hs]

theorem Fits.withOrder (hp : p.Fits w h) {e : Level × ℕ} (he : e ∈ h.levels.zipIdx) {o : List Dim}
    (ho : MapSpace.OrderFits w h e.1 o) : (p.withOrder e.2 o).Fits w h := by
  have horder : (p.withOrder e.2 o).order = Function.update p.order e.2 o := rfl
  refine ⟨hp.factors, fun e' he' => ?_, hp.split⟩
  by_cases hplace : e'.2 = e.2
  · rw [fst_eq_of_mem_zipIdx he' he hplace, horder, hplace, Function.update_self]
    exact ho
  · rw [horder, Function.update_of_ne hplace]
    exact hp.order e' he'

end Plan

end LoopTiling
