import LoopTiling.Proofs.MapSpace.Plan

/-!
# Members as choices at the levels

Where no spatial level pins its split, a member of a mapspace is given by the factors of the dimensions,
an order for each level and a number of dimensions for each spatial level, chosen independently of each
other.
-/
namespace LoopTiling

/-- Factors for all dimensions, and an order and a number of dimensions on X for each level. -/
structure Choice where
  factors : PerDim (List ℕ)
  order : ℕ → List Dim
  split : ℕ → ℕ

namespace Choice

/-- The member that a choice makes; the number of a temporal level is left out. -/
def toAssignment (h : Hierarchy) (c : Choice) : Assignment where
  factors := c.factors
  orders := h.levels.zipIdx.map fun e => c.order e.2
  splits := h.spatialLevels.map fun e => (.plain e.2, .plain (c.split e.2))

/-- The choices that make a member of a mapspace. -/
structure Fits (w : Workload) (h : Hierarchy) (c : Choice) : Prop where
  factors : ∀ d, MapSpace.Tiles w h d (c.factors.get d)
  order : ∀ e ∈ h.levels.zipIdx, MapSpace.OrderFits w h e.1 (c.order e.2)
  split : ∀ e ∈ h.spatialLevels,
    (MapSpace.prunedAt w h e.1).length ≤ c.split e.2 ∧ c.split e.2 ≤ Dim.count

end Choice

/-- Whether no spatial level of a hierarchy pins its split. -/
def Hierarchy.SplitsFree (h : Hierarchy) : Prop := ∀ l ∈ h.levels, l.isSpatial → l.split = none

namespace Choice

variable {w : Workload} {h : Hierarchy}

theorem splitFits_plain {l : Level} (hl : l.split = none) {split : Numeral} :
    MapSpace.SplitFits w h l split ↔
      ∃ n : ℕ, split = .plain n ∧ (MapSpace.prunedAt w h l).length ≤ n ∧ n ≤ Dim.count := by
  rw [MapSpace.SplitFits, hl]
  constructor
  · rintro ⟨n, rfl, hle, hcount⟩
    exact ⟨n.toNat, by rw [Int.toNat_of_nonneg (by omega)], by omega, by omega⟩
  · rintro ⟨n, rfl, hle, hcount⟩
    exact ⟨n, rfl, by omega, by omega⟩

theorem split_eq_none (hfree : h.SplitsFree) {e : Level × ℕ} (he : e ∈ h.spatialLevels) :
    e.1.split = none := by
  obtain ⟨hmem, hs⟩ := List.mem_filter.mp he
  exact hfree e.1 (List.mem_of_getElem? (List.mem_zipIdx_iff_getElem?.mp hmem)) hs

def toPlan (c : Choice) : Plan := ⟨c.factors, c.order, fun k => .plain (c.split k)⟩

theorem Fits.toPlan (hfree : h.SplitsFree) {c : Choice} (hc : c.Fits w h) : c.toPlan.Fits w h :=
  ⟨hc.factors, hc.order, fun e he =>
    (splitFits_plain (split_eq_none hfree he)).mpr ⟨_, rfl, hc.split e he⟩⟩

theorem Fits.isFor (hfree : h.SplitsFree) {c : Choice} (hc : c.Fits w h) :
    (c.toAssignment h).IsFor w h := (hc.toPlan hfree).isFor

theorem exists_eq_toAssignment (hfree : h.SplitsFree) {a : Assignment} (ha : a.IsFor w h) :
    ∃ c : Choice, c.Fits w h ∧ a = c.toAssignment h := by
  obtain ⟨p, hp, rfl⟩ := Plan.exists_eq_toAssignment ha
  have hplain : ∀ e ∈ h.spatialLevels, p.split e.2 = .plain (p.cut e.2 : ℕ) ∧
      (MapSpace.prunedAt w h e.1).length ≤ p.cut e.2 ∧ p.cut e.2 ≤ Dim.count := by
    intro e he
    obtain ⟨n, hn, hle, hcount⟩ :=
      (splitFits_plain (split_eq_none hfree he)).mp (hp.split e he)
    have hcut : p.cut e.2 = n := by rw [Plan.cut, hn, Numeral.toInt_plain, Int.toNat_natCast]
    rw [hcut]
    exact ⟨hn, hle, hcount⟩
  refine ⟨⟨p.factors, p.order, p.cut⟩, ⟨hp.factors, hp.order, fun e he => (hplain e he).2⟩, ?_⟩
  rw [Plan.toAssignment, toAssignment, List.map_congr_left fun e he =>
    congrArg (fun s => (Numeral.plain e.2, s)) (hplain e he).1]

end Choice

end LoopTiling
