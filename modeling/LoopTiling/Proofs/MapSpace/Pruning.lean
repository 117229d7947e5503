import LoopTiling.Proofs.MapSpace.Choice
import LoopTiling.Proofs.UnitDims

/-!
# Choices with and without pruning

Two hierarchies with the same levels, of which only one prunes, offer the same factors. A choice for the
hierarchy that does not prune becomes one for the other by moving the unit dimensions of every level to
the front and cutting behind them and the same other dimensions; that is the only equivalent choice
there. Back from the pruned orders leads putting the unit dimensions behind the start that a level
gives.
-/
namespace LoopTiling

open MapSpace

/-- Whether a dimension is a unit one at the place of a level. -/
def unitAt (w : Workload) (levels : List Level) (k : ℕ) (d : Dim) : Bool :=
  levels[k]?.any fun l => isUnit w l d

/-- The start that the level at a place gives to its orders. -/
def leadAt (levels : List Level) (k : ℕ) : List Dim := (levels[k]?.map Level.lead).getD []

def unitCount (w : Workload) (levels : List Level) (k : ℕ) : ℕ :=
  (Dim.all.filter (unitAt w levels k)).length

namespace Choice

/-- Choices with the same factors, the same orders but for the unit dimensions, and the same other
dimensions on X. -/
structure Equivalent (w : Workload) (levels : List Level) (c c' : Choice) : Prop where
  factors : c.factors = c'.factors
  order : ∀ e ∈ levels.zipIdx, (c.order e.2).filter (fun d => !isUnit w e.1 d) =
    (c'.order e.2).filter fun d => !isUnit w e.1 d
  group : ∀ e ∈ levels.zipIdx, e.1.isSpatial → ∀ d, !isUnit w e.1 d →
    (d ∈ (c.order e.2).take (c.split e.2) ↔ d ∈ (c'.order e.2).take (c'.split e.2))

/-- The choice with the unit dimensions of each level in front. -/
def prune (w : Workload) (levels : List Level) (c : Choice) : Choice where
  factors := c.factors
  order k := pruneOrder (unitAt w levels k) (c.order k)
  split k := unitCount w levels k +
    (((c.order k).take (c.split k)).filter fun d => !unitAt w levels k d).length

/-- A choice with the unit dimensions of each level behind the start that the level gives. -/
def unprune (w : Workload) (levels : List Level) (c : Choice) : Choice where
  factors := c.factors
  order k := unpruneOrder (unitAt w levels k) (leadAt levels k) (c.order k)
  split k := UnitDims.cutAfter (fun d => !unitAt w levels k d)
    (unpruneOrder (unitAt w levels k) (leadAt levels k) (c.order k))
    (c.split k - unitCount w levels k)

end Choice

variable {w : Workload} {levels : List Level} {e : Level × ℕ}

theorem unitAt_eq (he : e ∈ levels.zipIdx) : unitAt w levels e.2 = isUnit w e.1 := by
  funext d
  rw [unitAt, List.mem_zipIdx_iff_getElem?.mp he, Option.any_some]

theorem leadAt_eq (he : e ∈ levels.zipIdx) : leadAt levels e.2 = e.1.lead := by
  rw [leadAt, List.mem_zipIdx_iff_getElem?.mp he]
  rfl

theorem mem_of_mem_zipIdx (he : e ∈ levels.zipIdx) : e.1 ∈ levels :=
  List.mem_of_getElem? (List.mem_zipIdx_iff_getElem?.mp he)

namespace Choice

variable {c c' : Choice}

theorem order_prune (he : e ∈ levels.zipIdx) :
    (c.prune w levels).order e.2 = pruneOrder (isUnit w e.1) (c.order e.2) := by
  rw [← unitAt_eq he]
  rfl

theorem split_prune (he : e ∈ levels.zipIdx) :
    (c.prune w levels).split e.2 = (Dim.all.filter (isUnit w e.1)).length +
      (((c.order e.2).take (c.split e.2)).filter fun d => !isUnit w e.1 d).length := by
  rw [← unitAt_eq he]
  rfl

theorem order_unprune (he : e ∈ levels.zipIdx) :
    (c.unprune w levels).order e.2 = unpruneOrder (isUnit w e.1) e.1.lead (c.order e.2) := by
  rw [← unitAt_eq he, ← leadAt_eq he]
  rfl

theorem split_unprune (he : e ∈ levels.zipIdx) :
    (c.unprune w levels).split e.2 = UnitDims.cutAfter (fun d => !isUnit w e.1 d)
      (unpruneOrder (isUnit w e.1) e.1.lead (c.order e.2))
      (c.split e.2 - (Dim.all.filter (isUnit w e.1)).length) := by
  rw [← unitAt_eq he, ← leadAt_eq he]
  rfl

theorem filter_take_prune (he : e ∈ levels.zipIdx) :
    (((c.prune w levels).order e.2).take ((c.prune w levels).split e.2)).filter
        (fun d => !isUnit w e.1 d) =
      ((c.order e.2).take (c.split e.2)).filter fun d => !isUnit w e.1 d := by
  rw [order_prune he, split_prune he, filter_take_pruneOrder, Nat.add_sub_cancel_left,
    ← UnitDims.filter_take_eq]

theorem equivalent_of_filter_eq (hfactors : c.factors = c'.factors)
    (horder : ∀ e ∈ levels.zipIdx, (c.order e.2).filter (fun d => !isUnit w e.1 d) =
      (c'.order e.2).filter fun d => !isUnit w e.1 d)
    (hgroup : ∀ e ∈ levels.zipIdx, e.1.isSpatial →
      ((c.order e.2).take (c.split e.2)).filter (fun d => !isUnit w e.1 d) =
        ((c'.order e.2).take (c'.split e.2)).filter fun d => !isUnit w e.1 d) :
    Equivalent w levels c c' := by
  refine ⟨hfactors, horder, fun e he hs d hd => ?_⟩
  have hmem : ∀ o : List Dim, d ∈ o ↔ d ∈ o.filter fun d => !isUnit w e.1 d := fun o => by
    rw [List.mem_filter, and_iff_left hd]
  rw [hmem, hgroup e he hs, ← hmem]

theorem Equivalent.symm (h : Equivalent w levels c c') : Equivalent w levels c' c :=
  ⟨h.factors.symm, fun e he => (h.order e he).symm, fun e he hs d hd => (h.group e he hs d hd).symm⟩

theorem Equivalent.trans {c'' : Choice} (h : Equivalent w levels c c')
    (h' : Equivalent w levels c' c'') : Equivalent w levels c c'' :=
  ⟨h.factors.trans h'.factors, fun e he => (h.order e he).trans (h'.order e he),
    fun e he hs d hd => (h.group e he hs d hd).trans (h'.group e he hs d hd)⟩

theorem equivalent_prune (c : Choice) : Equivalent w levels c (c.prune w levels) := by
  refine equivalent_of_filter_eq rfl (fun e he => ?_) fun e he _ => (filter_take_prune he).symm
  rw [order_prune he, filter_pruneOrder]

end Choice

section Hierarchies

variable {full pruned : Hierarchy} {c c' : Choice}

theorem startOf_of_not_prunes (hp : full.prunes = false) (l : Level) :
    startOf w full l = l.lead := by
  simp [startOf, prunedAt, hp]

theorem prunedAt_of_prunes (hp : pruned.prunes = true) (l : Level) :
    prunedAt w pruned l = Dim.all.filter (isUnit w l) := by
  rw [prunedAt, if_pos hp]

theorem MapSpace.OrderFits.prune (hfull : full.prunes = false) (hpruned : pruned.prunes = true)
    {l : Level} {o : List Dim} (ho : OrderFits w full l o) :
    OrderFits w pruned l (pruneOrder (isUnit w l) o) := by
  obtain ⟨hperm, hstart⟩ := ho
  rw [startOf_of_not_prunes hfull] at hstart
  rw [OrderFits, startOf, prunedAt_of_prunes hpruned]
  exact ⟨perm_pruneOrder hperm, prefix_pruneOrder hstart⟩

theorem MapSpace.OrderFits.unprune (hfull : full.prunes = false) {l : Level} (hlead : l.lead.Nodup)
    {o : List Dim} (ho : OrderFits w pruned l o) :
    OrderFits w full l (unpruneOrder (isUnit w l) l.lead o) := by
  rw [OrderFits, startOf_of_not_prunes hfull]
  exact ⟨perm_unpruneOrder _ hlead ho.1, prefix_unpruneOrder _ _ _⟩

theorem MapSpace.OrderFits.eq_pruneOrder (hpruned : pruned.prunes = true) {l : Level} {o : List Dim}
    (ho : OrderFits w pruned l o) : o = pruneOrder (isUnit w l) o := by
  obtain ⟨hperm, hstart⟩ := ho
  rw [startOf, prunedAt_of_prunes hpruned] at hstart
  exact LoopTiling.eq_pruneOrder hperm ((List.prefix_append _ _).trans hstart)

/-- The start of a level without its unit dimensions is one of the order without them. -/
theorem MapSpace.OrderFits.prefix_filter (hpruned : pruned.prunes = true) {l : Level} {o : List Dim}
    (ho : OrderFits w pruned l o) :
    l.lead.filter (fun d => !isUnit w l d) <+: o.filter fun d => !isUnit w l d := by
  have hstart := ho.2
  rw [startOf, prunedAt_of_prunes hpruned, filter_not_mem_units, ho.eq_pruneOrder hpruned,
    pruneOrder, List.prefix_append_right_inj] at hstart
  exact hstart

theorem MapSpace.OrderFits.filter_unpruneOrder (hpruned : pruned.prunes = true) {l : Level}
    {o : List Dim} (ho : OrderFits w pruned l o) :
    (unpruneOrder (isUnit w l) l.lead o).filter (fun d => !isUnit w l d) =
      o.filter fun d => !isUnit w l d :=
  LoopTiling.filter_unpruneOrder (ho.1.nodup_iff.mpr Dim.nodup_all) (ho.prefix_filter hpruned)

theorem tiles_of_levels_eq (hlevels : full.levels = pruned.levels) {d : Dim} {fs : List ℕ} :
    Tiles w full d fs ↔ Tiles w pruned d fs :=
  ⟨fun ht => ⟨hlevels ▸ ht.pinned, ht.pos, ht.prod⟩, fun ht => ⟨hlevels ▸ ht.pinned, ht.pos, ht.prod⟩⟩

namespace Choice

theorem Fits.prune (hlevels : full.levels = pruned.levels) (hfull : full.prunes = false)
    (hpruned : pruned.prunes = true) (hc : c.Fits w full) :
    (c.prune w pruned.levels).Fits w pruned := by
  refine ⟨fun d => (tiles_of_levels_eq hlevels).mp (hc.factors d), fun e he => ?_, fun e he => ?_⟩
  · rw [order_prune he]
    exact (hc.order e (hlevels ▸ he)).prune hfull hpruned
  · have hmem := (List.mem_filter.mp he).1
    obtain ⟨hperm, -⟩ := hc.order e (hlevels ▸ hmem)
    have htotal := length_filter_not (isUnit w e.1) hperm
    have hle : (((c.order e.2).take (c.split e.2)).filter fun d => !isUnit w e.1 d).length ≤
        ((c.order e.2).filter fun d => !isUnit w e.1 d).length :=
      ((List.take_sublist _ _).filter _).length_le
    rw [prunedAt_of_prunes hpruned, split_prune hmem]
    omega

theorem Fits.unprune (hlevels : full.levels = pruned.levels) (hfull : full.prunes = false)
    (hlead : ∀ l ∈ full.levels, l.lead.Nodup) (hc : c.Fits w pruned) :
    (c.unprune w full.levels).Fits w full := by
  refine ⟨fun d => (tiles_of_levels_eq hlevels).mpr (hc.factors d), fun e he => ?_, fun e he => ?_⟩
  · rw [order_unprune he]
    exact (hc.order e (hlevels ▸ he)).unprune hfull (hlead e.1 (mem_of_mem_zipIdx he))
  · have hmem := (List.mem_filter.mp he).1
    obtain ⟨hperm, -⟩ := hc.order e (hlevels ▸ hmem)
    have hnone : prunedAt w full e.1 = [] := if_neg (by simp [hfull])
    have hlength := (perm_unpruneOrder (isUnit w e.1) (hlead e.1 (mem_of_mem_zipIdx hmem))
      hperm).length_eq
    rw [hnone, split_unprune hmem]
    refine ⟨Nat.zero_le _, (UnitDims.cutAfter_le _ _ _).trans ?_⟩
    rw [hlength, Dim.length_all]

theorem Fits.eq_pruneOrder (hpruned : pruned.prunes = true) (hc : c.Fits w pruned)
    (he : e ∈ pruned.levels.zipIdx) :
    c.order e.2 = pruneOrder (isUnit w e.1) (c.order e.2) := (hc.order e he).eq_pruneOrder hpruned

/-- Behind the unit dimensions an order of a hierarchy that prunes has the other ones up to its cut. -/
theorem Fits.filter_take (hpruned : pruned.prunes = true) (hc : c.Fits w pruned)
    (he : e ∈ pruned.spatialLevels) :
    ((c.order e.2).take (c.split e.2)).filter (fun d => !isUnit w e.1 d) =
      ((c.order e.2).filter fun d => !isUnit w e.1 d).take
        (c.split e.2 - (Dim.all.filter (isUnit w e.1)).length) := by
  conv_lhs => rw [hc.eq_pruneOrder hpruned (List.mem_filter.mp he).1]
  exact filter_take_pruneOrder _ _ _

theorem Fits.sub_le_length_filter (hc : c.Fits w pruned)
    (he : e ∈ pruned.spatialLevels) : c.split e.2 - (Dim.all.filter (isUnit w e.1)).length ≤
      ((c.order e.2).filter fun d => !isUnit w e.1 d).length := by
  have htotal := length_filter_not (isUnit w e.1) (hc.order e (List.mem_filter.mp he).1).1
  have hcount := (hc.split e he).2
  omega

/-- Equivalent choices for a hierarchy that prunes make the same member. -/
theorem Fits.toAssignment_eq (hpruned : pruned.prunes = true) (hc : c.Fits w pruned)
    (hc' : c'.Fits w pruned) (hequiv : Equivalent w pruned.levels c c') :
    c.toAssignment pruned = c'.toAssignment pruned := by
  have horder : ∀ e ∈ pruned.levels.zipIdx, c.order e.2 = c'.order e.2 := by
    intro e he
    rw [hc.eq_pruneOrder hpruned he, hc'.eq_pruneOrder hpruned he, pruneOrder, pruneOrder,
      hequiv.order e he]
  have hsplit : ∀ e ∈ pruned.spatialLevels, c.split e.2 = c'.split e.2 := by
    intro e he
    obtain ⟨hmem, hs⟩ := List.mem_filter.mp he
    have hnodup : (c.order e.2).Nodup := (hc.order e hmem).1.nodup_iff.mpr Dim.nodup_all
    have hgroup := UnitDims.filter_take_eq_of_mem_iff hnodup (hequiv.order e hmem)
      (hequiv.group e hmem hs)
    have hlength := congrArg List.length hgroup
    rw [hc.filter_take hpruned he, hc'.filter_take hpruned he, List.length_take, List.length_take,
      min_eq_left (hc.sub_le_length_filter he),
      min_eq_left (hc'.sub_le_length_filter he)] at hlength
    have hle := (hc.split e he).1
    have hle' := (hc'.split e he).1
    rw [prunedAt_of_prunes hpruned] at hle hle'
    omega
  rw [toAssignment, toAssignment, hequiv.factors, List.map_congr_left horder,
    List.map_congr_left fun e he => congrArg (fun n : ℕ => (Numeral.plain e.2, Numeral.plain n))
      (hsplit e he)]

theorem Fits.equivalent_unprune (hpruned : pruned.prunes = true) (hc : c.Fits w pruned) :
    Equivalent w pruned.levels (c.unprune w pruned.levels) c := by
  have horder : ∀ e ∈ pruned.levels.zipIdx, ((c.unprune w pruned.levels).order e.2).filter
      (fun d => !isUnit w e.1 d) = (c.order e.2).filter fun d => !isUnit w e.1 d := by
    intro e he
    rw [order_unprune he]
    exact (hc.order e he).filter_unpruneOrder hpruned
  refine equivalent_of_filter_eq rfl horder fun e he hs => ?_
  have hspatial : e ∈ pruned.spatialLevels := List.mem_filter.mpr ⟨he, hs⟩
  have hsame := horder e he
  have hle := hc.sub_le_length_filter hspatial
  rw [order_unprune he] at hsame
  rw [hc.filter_take hpruned hspatial, order_unprune he, split_unprune he,
    UnitDims.filter_take_cutAfter _ _ (hsame ▸ hle), hsame]

end Choice

end Hierarchies

end LoopTiling
