import LoopTiling.Proofs.Mapping
import LoopTiling.Proofs.MapSpace.Choice

/-!
# What a mapping answers about a plan

A mapping that records the member that a plan makes has the factors and the orders of the plan, puts on
the X axis of a spatial level the dimensions before the cut, and has as numbers of instances the products
of the factors before and behind it. The same holds for choices, which are plans whose splits are free.
-/
namespace LoopTiling

namespace Mapping

def dimOrder (m : Mapping) (level : ℕ) : Except Fault (List Dim) := do
  (← m.loopOrder (.int level)).mapM Value.asDim

def dimsOnX (m : Mapping) (level : ℕ) : Except Fault (List Dim) := do
  (← m.spatialPartition (.int level)).1.mapM Value.asDim

/-- Whether a mapping records the member that a plan makes. -/
def Follows (h : Hierarchy) (m : Mapping) (p : Plan) : Prop :=
  m.tables = (p.toAssignment h).tables h.levelCount

/-- Whether a mapping records the member that a choice makes. -/
def Records (h : Hierarchy) (m : Mapping) (c : Choice) : Prop :=
  m.tables = (c.toAssignment h).tables h.levelCount

def names (ds : List Dim) : List Value := ds.map fun d => .text d.name

theorem mapM_asDim_names (ds : List Dim) : (names ds).mapM Value.asDim = .ok ds := by
  rw [mapM_eq_ok, names, List.forall₂_map_left_iff, List.forall₂_same]
  exact fun d _ => Value.asDim_name d

theorem partAt_names (ds : List Dim) {split : Numeral} (hs : 0 ≤ split.toInt) :
    partAt (names ds) split.toValue =
      .ok (names (ds.take split.toInt.toNat), names (ds.drop split.toInt.toNat)) := by
  have hplace : Value.cutPlace (names ds).length split.toInt = min split.toInt.toNat ds.length := by
    rw [Value.cutPlace, if_neg (by omega), names, List.length_map]
  have htake : (names ds).take (min split.toInt.toNat ds.length) =
      names (ds.take split.toInt.toNat) := by
    rw [names, names, ← List.map_take, ← List.take_eq_take_min]
  have hdrop : (names ds).drop (min split.toInt.toNat ds.length) =
      names (ds.drop split.toInt.toNat) := by
    rw [names, names, ← List.map_drop, ← List.drop_eq_drop_min]
  rw [← htake, ← hdrop, ← hplace]
  cases split <;> rfl

section Plans

variable {w : Workload} {h : Hierarchy} {m : Mapping} {p : Plan} {e : Level × ℕ}

theorem Follows.loopBounds (hm : m.Follows h p) (he : e ∈ h.levels.zipIdx) :
    ∃ es, m.loopBounds = .map es ∧
      Value.find? (.int e.2) es = some (MapSpace.factorsOfLevel p.factors e.2) := by
  have hlt : e.2 < h.levelCount :=
    (List.getElem?_eq_some_iff.mp (List.mem_zipIdx_iff_getElem?.mp he)).1
  have htable : m.loopBounds = .map ((List.range h.levelCount).map fun (level : ℕ) =>
      (.int level, MapSpace.factorsOfLevel p.factors level)) := congrArg Prod.fst hm
  exact ⟨_, htable, Value.find?_map_range (MapSpace.factorsOfLevel p.factors) hlt⟩

theorem Follows.loopBounds_part (hm : m.Follows h p) (he : e ∈ h.levels.zipIdx) :
    m.loopBounds.part (.int e.2) = .ok (MapSpace.factorsOfLevel p.factors e.2) := by
  obtain ⟨es, hes, hfind⟩ := hm.loopBounds he
  rw [hes, Value.part, Value.lookup_int, hfind]
  rfl

theorem Follows.loopOrder (hm : m.Follows h p) (he : e ∈ h.levels.zipIdx) :
    m.loopOrder (.int e.2) = .ok (names (p.order e.2)) := by
  have htable : m.permutation = .map ((h.levels.zipIdx.map fun e => p.order e.2).zipIdx.map
      fun e => (.int e.2, .list (names e.1))) := congrArg (fun t => t.2.1) hm
  have hmem : (p.order e.2, e.2) ∈ (h.levels.zipIdx.map fun e => p.order e.2).zipIdx := by
    rw [List.mem_zipIdx_iff_getElem?, List.getElem?_map, List.getElem?_zipIdx,
      List.mem_zipIdx_iff_getElem?.mp he, Nat.zero_add]
    rfl
  have hkeys : ((h.levels.zipIdx.map fun e => p.order e.2).zipIdx.map Prod.snd).Nodup := by
    rw [List.zipIdx_map_snd]
    exact List.nodup_range'
  rw [Mapping.loopOrder, htable, getD_map rfl,
    Value.find?_map_int (fun e : List Dim × ℕ => .list (names e.1)) hkeys hmem]
  rfl

theorem Follows.find?_splits (hm : m.Follows h p) (he : e ∈ h.spatialLevels) :
    ∃ es, m.splits = .map es ∧ Value.find? (.int e.2) es = some (p.split e.2).toValue := by
  have htable : m.splits = .map ((p.toAssignment h).splits.map fun e =>
      (e.1.toValue, e.2.toValue)) := congrArg (fun t => t.2.2) hm
  rw [Plan.toAssignment, List.map_map] at htable
  refine ⟨_, htable, ?_⟩
  exact Value.find?_map_int (fun e : Level × ℕ => (p.split e.2).toValue) h.nodup_spatialPlaces he

theorem Follows.has_splits (hm : m.Follows h p) (he : e ∈ h.spatialLevels) :
    m.splits.has (.int e.2) = .ok true ∧
      m.splits.part (.int e.2) = .ok (p.split e.2).toValue := by
  obtain ⟨es, hsplits, hfind⟩ := hm.find?_splits he
  rw [hsplits, Value.has, Value.part, Value.lookup_int, hfind]
  exact ⟨rfl, rfl⟩

theorem Follows.spatialPartition (hm : m.Follows h p) (he : e ∈ h.spatialLevels)
    (hs : 0 ≤ (p.split e.2).toInt) :
    m.spatialPartition (.int e.2) = .ok (names ((p.order e.2).take (p.cut e.2)),
      names ((p.order e.2).drop (p.cut e.2))) := by
  obtain ⟨hhas, hpart⟩ := hm.has_splits he
  have horder := hm.loopOrder (List.mem_filter.mp he).1
  rw [Mapping.spatialPartition, hhas, horder, hpart]
  simp only [ok_bind, Bool.not_true, Bool.false_eq_true, if_false]
  exact partAt_names _ hs

theorem Follows.dimsOnX (hm : m.Follows h p) (he : e ∈ h.spatialLevels)
    (hs : 0 ≤ (p.split e.2).toInt) : m.dimsOnX e.2 = .ok ((p.order e.2).take (p.cut e.2)) := by
  rw [Mapping.dimsOnX, hm.spatialPartition he hs, ok_bind, mapM_asDim_names]

theorem Follows.fanout (hm : m.Follows h p) (he : e ∈ h.spatialLevels)
    (hs : 0 ≤ (p.split e.2).toInt) : m.fanout (.int e.2) =
      .ok (.number (.int (p.instances e.2).1), .number (.int (p.instances e.2).2)) := by
  obtain ⟨es, hes, hfind⟩ := hm.loopBounds (List.mem_filter.mp he).1
  have hbounds : getD m.loopBounds (.int e.2) (.map []) =
      .ok (MapSpace.factorsOfLevel p.factors e.2) := by
    rw [hes, getD_map rfl, hfind]
    rfl
  have hproduct (ds : List Dim) :
      multiply (MapSpace.factorsOfLevel p.factors e.2) (names ds) .one =
        .ok (.number (.int ((ds.map (p.factorAt e.2)).prod : ℕ))) := by
    have hnames := multiply_names (p.factorAt e.2) ds 1
    rw [Nat.one_mul] at hnames
    exact hnames
  rw [Mapping.fanout, hm.spatialPartition he hs, ok_bind]
  simp only [hbounds, hproduct, ok_bind]
  rfl

end Plans

section Choices

variable {h : Hierarchy} {m : Mapping} {c : Choice} {e : Level × ℕ}

theorem Records.follows (hm : m.Records h c) : m.Follows h c.toPlan := hm

theorem Records.dimOrder (hm : m.Records h c) (he : e ∈ h.levels.zipIdx) :
    m.dimOrder e.2 = .ok (c.order e.2) := by
  rw [Mapping.dimOrder, hm.follows.loopOrder he, ok_bind, mapM_asDim_names]
  rfl

theorem Records.dimsOnX (hm : m.Records h c) (he : e ∈ h.spatialLevels) :
    m.dimsOnX e.2 = .ok ((c.order e.2).take (c.split e.2)) :=
  hm.follows.dimsOnX he (Int.natCast_nonneg _)

theorem Records.fanout (hm : m.Records h c) (he : e ∈ h.spatialLevels) :
    m.fanout (.int e.2) = .ok
      (.number (.int (c.toPlan.instances e.2).1), .number (.int (c.toPlan.instances e.2).2)) :=
  hm.follows.fanout he (Int.natCast_nonneg _)

end Choices

end Mapping

/-- An index in range is decoded to a mapping that records the member of a plan that fits. -/
theorem MapSpace.exists_plan [Text.DigitLimit] {w : Workload} {h : Hierarchy} (ha : Assembles w h)
    {i : ℕ} (hi : i < (layout w h).size) : ∃ p : Plan, p.Fits w h ∧
      ((layout w h).mappingOf i (p.toAssignment h)).Follows h p ∧
        (layout w h).decode (.int i) = .ok ((layout w h).mappingOf i (p.toAssignment h)) := by
  obtain ⟨p, hp, hplan⟩ := Plan.exists_eq_toAssignment ((bijOn_assignmentOf ha).mapsTo hi)
  exact ⟨p, hp, rfl, hplan ▸ decode_layout ha hi⟩

end LoopTiling
