import Mathlib.Algebra.BigOperators.Group.Multiset.Basic
import LoopTiling.Proofs.MapSpace.Checking

/-!
# Conservation of work

What a decoded mapping spreads over the levels is the work of its workload. The tile size of a dimension
grows by factors from level to level up to the bound of the dimension, a spatial level divides its whole loop
order between its two axes, and the instances of the spatial levels times the iterations of the temporal ones
are the product of the bounds. The workload counts that product exactly, unless its bounds mix signed and
unsigned words.
-/
namespace LoopTiling

theorem eraseDups_eq_self {α : Type} [BEq α] [LawfulBEq α] {xs : List α} (hd : xs.Nodup) :
    xs.eraseDups = xs := by
  induction xs with
  | nil => rfl
  | cons x xs ih =>
    rw [List.nodup_cons] at hd
    have hothers : xs.filter (fun y => !y == x) = xs :=
      List.filter_eq_self.mpr fun y hy => by
        simpa using fun hyx : y = x => hd.1 (hyx ▸ hy)
    rw [List.eraseDups_cons, hothers, ih hd.2]

theorem filter_lt_range (count n : ℕ) :
    (List.range n).filter (· < count) = List.range (min count n) := by
  induction n with
  | zero => simp
  | succ n ih =>
    rw [List.range_succ, List.filter_append, ih]
    by_cases hn : n < count
    · rw [min_eq_right hn.le, min_eq_right hn, List.range_succ]
      simp [hn]
    · have hle : count ≤ n := Nat.le_of_not_lt hn
      rw [min_eq_left hle, min_eq_left (hle.trans n.le_succ)]
      simp [hn]

/-- The temporal levels with their places, ascending. -/
def Hierarchy.temporalLevels (h : Hierarchy) : List (Level × ℕ) :=
  h.levels.zipIdx.filter fun e => !e.1.isSpatial

namespace Plan

variable {w : Workload} {h : Hierarchy} {p : Plan}

/-- The product of the factors of a dimension up to a level. -/
def tile (p : Plan) (d : Dim) (l : ℕ) : ℕ := ((p.factors.get d).take (l + 1)).prod

theorem tile_dvd_tile_succ (p : Plan) (d : Dim) (l : ℕ) : p.tile d l ∣ p.tile d (l + 1) :=
  (List.take_sublist_take_left (Nat.le_succ _)).prod_dvd_prod

theorem Fits.tile_eq (hp : p.Fits w h) (d : Dim) {l : ℕ} (hl : h.levelCount ≤ l + 1) :
    p.tile d l = w.bounds.get d := by
  rw [tile, List.take_of_length_le ((hp.factors d).length.trans_le hl), (hp.factors d).prod]

theorem prod_instances (p : Plan) (k : ℕ) :
    (p.instances k).1 * (p.instances k).2 = ((p.order k).map (p.factorAt k)).prod := by
  rw [instances, List.map_take, List.map_drop, List.prod_take_mul_prod_drop]

/-- The factors of all levels and dimensions have the product of the bounds as product. -/
theorem Fits.prod_factorAt (hp : p.Fits w h) :
    (h.levels.zipIdx.map fun e => (Dim.all.map (p.factorAt e.2)).prod).prod =
      Radix.volume w.bounds.toList := by
  have hdim (d : Dim) : (h.levels.zipIdx.map fun e => p.factorAt e.2 d).prod = w.bounds.get d := by
    have hfactors := hp.factors d
    have hplaces : h.levels.zipIdx.map Prod.snd = List.range h.levelCount := by
      rw [List.zipIdx_map_snd, List.range_eq_range']
      rfl
    calc (h.levels.zipIdx.map fun e => p.factorAt e.2 d).prod
        = ((h.levels.zipIdx.map Prod.snd).map fun k => (p.factors.get d).getD k 1).prod := by
          rw [List.map_map]
          rfl
      _ = (p.factors.get d).prod := by rw [hplaces, hfactors.map_getD_range]
      _ = w.bounds.get d := hfactors.prod
  have hswap := Multiset.prod_map_prod_map (h.levels.zipIdx : Multiset (Level × ℕ))
    (Dim.all : Multiset Dim) (f := fun e d => p.factorAt e.2 d)
  simp only [Multiset.map_coe, Multiset.prod_coe, hdim] at hswap
  rw [Radix.volume_eq_prod, PerDim.toList_eq]
  exact hswap

/-- The instances of the spatial levels times the factors of the temporal ones are the work. -/
theorem Fits.prod_instances_mul_prod_factorAt (hp : p.Fits w h) :
    (h.spatialLevels.map fun e => (p.instances e.2).1 * (p.instances e.2).2).prod *
        (h.temporalLevels.map fun e => (Dim.all.map (p.factorAt e.2)).prod).prod =
      Radix.volume w.bounds.toList := by
  have hspatial (e : Level × ℕ) (he : e ∈ h.spatialLevels) :
      (p.instances e.2).1 * (p.instances e.2).2 = (Dim.all.map (p.factorAt e.2)).prod := by
    rw [prod_instances, ((hp.order e (List.mem_filter.mp he).1).1.map _).prod_eq]
  rw [List.map_congr_left hspatial, ← List.prod_append, ← List.map_append, ← hp.prod_factorAt]
  exact ((List.filter_append_perm (fun e : Level × ℕ => e.1.isSpatial) h.levels.zipIdx).map _).prod_eq

end Plan

namespace Mapping

/-- The product of all the loop bounds of a level. -/
def iterations (m : Mapping) (level : Value) : Except Fault Product := do
  let bounds ← m.loopBounds.part level
  multiply bounds (← bounds.items) .one

theorem names_append (ds ds' : List Dim) : names (ds ++ ds') = names ds ++ names ds' :=
  List.map_append

/-- A value that stands for a level counts the levels up to it, unless it is the last word. -/
theorem levelsUpTo_eq {v : Value} {l : ℕ} (hv : v.index? = some (l : ℤ))
    (hword : v ≠ .word Int64.maxValue) : levelsUpTo v = .ok ((l + 1 : ℕ) : ℤ) := by
  cases v with
  | word w =>
    have hw : w.toInt = l := Option.some.inj hv
    have hlt : w.toInt < 2 ^ 63 - 1 := by
      have hne : w.toInt ≠ Int64.maxValue.toInt := fun he => hword (congrArg _ (Int64.toInt_inj.mp he))
      have hmax : Int64.maxValue.toInt = 2 ^ 63 - 1 := rfl
      have := Int64.toInt_lt w
      omega
    have hnext : (w + 1).toInt = w.toInt + 1 := by
      have hone : (1 : Int64).toInt = 1 := rfl
      rw [Int64.toInt_add, hone, Int.bmod_eq_of_le (by omega) (by omega)]
    rw [levelsUpTo, hnext, hw]
    rfl
  | flag | int | dim =>
    simp only [levelsUpTo, hv]
    rfl
  | _ => cases hv

theorem levelsAmong_range (count n : ℕ) :
    levelsAmong count ((List.range n).map fun (k : ℕ) => .int k) =
      (List.range (min count n)).map Nat.cast := by
  have hwhole : ((List.range n).map fun (k : ℕ) => Value.int k).filterMap wholeOf? =
      (List.range n).map Nat.cast := by
    rw [List.filterMap_map, ← List.filterMap_eq_map]
    rfl
  have hfilter : ((List.range n).map (Nat.cast : ℕ → ℤ)).filter
      (fun l => 0 ≤ l && l < (count : ℤ)) = (List.range (min count n)).map Nat.cast := by
    rw [List.filter_map, ← filter_lt_range]
    congr 2
    funext k
    simp
  have hascends : ((List.range (min count n)).map (Nat.cast : ℕ → ℤ)).Pairwise (· < ·) :=
    List.pairwise_map.mpr (List.pairwise_lt_range.imp Int.ofNat_lt.mpr)
  -- The places ascend already, so that sorting and dropping what comes twice change nothing.
  rw [levelsAmong, hwhole, hfilter, List.mergeSort_of_pairwise, eraseDups_eq_self]
  · exact hascends.imp ne_of_lt
  · exact hascends.imp fun hlt => decide_eq_true hlt.le

section Plans

variable {w : Workload} {h : Hierarchy} {m : Mapping} {p : Plan} {e : Level × ℕ}

theorem Follows.levelsBelow (hm : m.Follows h p) (count : ℕ) : m.levelsBelow count =
    .ok ((List.range (min count h.levelCount)).map fun k =>
      .ok (MapSpace.factorsOfLevel p.factors k)) := by
  have htable : m.loopBounds = .map ((List.range h.levelCount).map fun (level : ℕ) =>
      (.int level, MapSpace.factorsOfLevel p.factors level)) := congrArg Prod.fst hm
  have hitems : m.loopBounds.items = .ok ((List.range h.levelCount).map fun (k : ℕ) => .int k) := by
    rw [htable, Value.items, List.map_map]
    rfl
  have hpart (k : ℕ) (hk : k ∈ List.range (min count h.levelCount)) :
      m.loopBounds.part (.int k) = .ok (MapSpace.factorsOfLevel p.factors k) := by
    have hlt : k < h.levels.length := (List.mem_range.mp hk).trans_le (min_le_right _ _)
    exact hm.loopBounds_part (e := (h.levels[k], k))
      (List.mem_zipIdx_iff_getElem?.mpr (List.getElem?_eq_getElem hlt))
  have hlevels : m.levelsBelow count = .ok ((List.range (min count h.levelCount)).map fun (k : ℕ) =>
      m.loopBounds.part (.int k)) := by
    rcases Nat.eq_zero_or_pos count with rfl | hpos
    · simp [Mapping.levelsBelow]
    · have hcount : ¬ (count : ℤ) ≤ 0 := by omega
      rw [Mapping.levelsBelow, if_neg hcount, hitems, ok_bind, levelsAmong_range, List.map_map]
      rw [htable]
      rfl
  rw [hlevels, List.map_congr_left hpart]

theorem Follows.tileSize (hm : m.Follows h p) (hp : p.Fits w h) (d : Dim) {v : Value} {l : ℕ}
    (hv : v.index? = some (l : ℤ)) (hword : v ≠ .word Int64.maxValue) :
    m.tileSize v (.text d.name) = .ok (.number (.int (p.tile d l))) := by
  have hproduct := multiplyLevels_factors p.factors d (List.range (min (l + 1) h.levelCount)) 1
  rw [← (hp.factors d).length, map_getD_range, Nat.one_mul] at hproduct
  rw [Mapping.tileSize, levelsUpTo_eq hv hword, ok_bind, hm.levelsBelow, ok_bind,
    ← (hp.factors d).length]
  exact hproduct

theorem Follows.iterations (hm : m.Follows h p) (he : e ∈ h.levels.zipIdx) :
    m.iterations (.int e.2) = .ok (.number (.int ((Dim.all.map (p.factorAt e.2)).prod : ℕ))) := by
  have hitems : (MapSpace.factorsOfLevel p.factors e.2).items =
      .ok (Dim.all.map fun d => .text d.name) := rfl
  have hproduct := multiply_names (p.factorAt e.2) Dim.all 1
  rw [Nat.one_mul] at hproduct
  rw [Mapping.iterations, hm.loopBounds_part he, ok_bind, hitems, ok_bind]
  exact hproduct

end Plans

end Mapping

theorem Workload.macs_eq_volume {w : Workload} (hw : mixesWords w.bounds.toList = false) :
    w.macs = Radix.volume w.bounds.toList := by
  rw [macs, hw]
  rfl

namespace MapSpace

/-- In every mapping that an index names the tile size of a dimension divides the one of the next level, and
is the bound from the last level on; the dimensions on the axes of a spatial level are its loop order; and
the instances of the spatial levels times the iterations of the temporal ones are the product of the bounds.
That is the number of multiplications unless the bounds mix signed and unsigned words. -/
theorem work_conserved [Text.DigitLimit] {w : Workload} {h : Hierarchy} {m : MapSpace}
    (hm : build w h = .ok m) {i : ℕ} (hi : i < m.size) :
    ∃ mp, m.decode (.int i) = .ok mp ∧
      (∀ d, ∃ tile : ℕ → ℕ,
        (∀ (v : Value) (l : ℕ), v.index? = some (l : ℤ) → v ≠ .word Int64.maxValue →
          mp.tileSize v (.text d.name) = .ok (.number (.int (tile l)))) ∧
        (∀ l, tile l ∣ tile (l + 1)) ∧ ∀ l, h.levelCount ≤ l + 1 → tile l = w.bounds.get d) ∧
      (∀ e ∈ h.spatialLevels, ∃ x y : List Dim, (x ++ y).Perm Dim.all ∧
        mp.spatialPartition (.int e.2) = .ok (Mapping.names x, Mapping.names y) ∧
        mp.loopOrder (.int e.2) = .ok (Mapping.names x ++ Mapping.names y)) ∧
      (∃ (instances : ℕ → ℕ × ℕ) (loops : ℕ → ℕ),
        (∀ e ∈ h.spatialLevels, mp.fanout (.int e.2) =
          .ok (.number (.int (instances e.2).1), .number (.int (instances e.2).2))) ∧
        (∀ e ∈ h.temporalLevels, mp.iterations (.int e.2) = .ok (.number (.int (loops e.2)))) ∧
        (h.spatialLevels.map fun e => (instances e.2).1 * (instances e.2).2).prod *
          (h.temporalLevels.map fun e => loops e.2).prod = Radix.volume w.bounds.toList) ∧
      (Workload.mixesWords w.bounds.toList = false → w.macs = Radix.volume w.bounds.toList) := by
  obtain ⟨ha, rfl, -⟩ := build_eq_ok.mp hm
  obtain ⟨p, hp, hfollows, hdecode⟩ := exists_plan ha hi
  have hsplit (e : Level × ℕ) (he : e ∈ h.spatialLevels) := (hp.split_range ha.split_range he).1
  refine ⟨_, hdecode, fun d => ⟨p.tile d, ?_, p.tile_dvd_tile_succ d, fun _ => hp.tile_eq d⟩,
    fun e he => ?_, ⟨p.instances, fun k => (Dim.all.map (p.factorAt k)).prod, ?_, ?_,
    hp.prod_instances_mul_prod_factorAt⟩, Workload.macs_eq_volume⟩
  · exact fun v l hv hword => hfollows.tileSize hp d hv hword
  · have hmem := (List.mem_filter.mp he).1
    have horder := List.take_append_drop (p.cut e.2) (p.order e.2)
    refine ⟨_, _, ?_, hfollows.spatialPartition he (hsplit e he), ?_⟩
    · rw [horder]
      exact (hp.order e hmem).1
    · rw [hfollows.loopOrder hmem, ← Mapping.names_append, horder]
  · exact fun e he => hfollows.fanout he (hsplit e he)
  · exact fun e he => hfollows.iterations (List.mem_filter.mp he).1

theorem work_conserved_sample : ∃ m mp, ∃ (instances : ℕ → ℕ × ℕ) (loops : ℕ → ℕ),
    build sampleWorkload (sampleHierarchy true none) = .ok m ∧ m.size = 31104 ∧
    m.decode (.int 20000) = .ok mp ∧
    mp.tileSize (.int 3) (.text "K") = .ok (.number (.int 6)) ∧
    (∀ k ∈ [1, 2], mp.fanout (.int (k : ℕ)) =
      .ok (.number (.int (instances k).1), .number (.int (instances k).2))) ∧
    (∀ k ∈ [0, 3], mp.iterations (.int (k : ℕ)) = .ok (.number (.int (loops k)))) ∧
    (instances 1).1 * (instances 1).2 * ((instances 2).1 * (instances 2).2) * (loops 0 * loops 3) =
      sampleWorkload.macs ∧
    sampleWorkload.macs = 48 := by
  obtain ⟨m, hm, hsize⟩ := exists_build (w := sampleWorkload) (h := sampleHierarchy true none)
    (n := 31104) (by decide +kernel)
  obtain ⟨mp, hdecode, htiles, -, ⟨instances, loops, hfanout, hloops, hwork⟩, hmacs⟩ :=
    work_conserved hm (i := 20000) (by omega)
  obtain ⟨tile, htile, -, hbound⟩ := htiles .k
  have hk : tile 3 = 6 := hbound 3 (by decide)
  have htile := htile (.int 3) 3 rfl nofun
  rw [hk] at htile
  have hspatial : ∀ k ∈ (sampleHierarchy true none).spatialLevels.map Prod.snd, mp.fanout (.int (k : ℕ)) =
      .ok (.number (.int (instances k).1), .number (.int (instances k).2)) :=
    List.forall_mem_map.mpr hfanout
  have htemporal : ∀ k ∈ (sampleHierarchy true none).temporalLevels.map Prod.snd,
      mp.iterations (.int (k : ℕ)) = .ok (.number (.int (loops k))) := List.forall_mem_map.mpr hloops
  have hproduct : (instances 1).1 * (instances 1).2 * ((instances 2).1 * (instances 2).2 * 1) *
      (loops 0 * (loops 3 * 1)) = Radix.volume sampleWorkload.bounds.toList := hwork
  rw [Nat.mul_one, Nat.mul_one] at hproduct
  refine ⟨m, mp, instances, loops, hm, hsize, hdecode, htile, hspatial, htemporal, ?_,
    by decide +kernel⟩
  rw [hmacs (by decide +kernel), hproduct]

def oneLevel : Hierarchy where
  levels := [{ name := .text "Main" }]

/-- Bounds of which one needs an unsigned word. -/
def wideWorkload : Workload :=
  ⟨.text "wide", ⟨1, 1, 1, 1, 2 ^ 63 + 1, 1, 1⟩, Workload.unitPair, Workload.unitPair, .text "wide"⟩

/-- The number of multiplications is rounded, so that the only level iterates once more. -/
theorem macs_rounded : ∃ m mp, build wideWorkload oneLevel = .ok m ∧ m.size = 1 ∧
    m.decode (.int 0) = .ok mp ∧ oneLevel.levels.map Level.isSpatial = [false] ∧
    mp.iterations (.int 0) = .ok (.number (.int (2 ^ 63 + 1))) ∧ wideWorkload.macs = 2 ^ 63 := by
  obtain ⟨m, hm, hsize⟩ := exists_build (w := wideWorkload) (h := oneLevel) (n := 1)
    (by decide +kernel)
  obtain ⟨ha, rfl, -⟩ := build_eq_ok.mp hm
  obtain ⟨p, hp, hfollows, hdecode⟩ := exists_plan ha (i := 0) (by omega)
  have hiterations := hfollows.iterations (e := (oneLevel.levels[0], 0)) (by simp [oneLevel])
  have hwork : (Dim.all.map (p.factorAt 0)).prod = 2 ^ 63 + 1 := by
    have hvolume : Radix.volume wideWorkload.bounds.toList = 2 ^ 63 + 1 := by decide +kernel
    have hproduct := hp.prod_factorAt
    rw [hvolume] at hproduct
    simpa [oneLevel] using hproduct
  rw [hwork] at hiterations
  exact ⟨_, _, hm, hsize, hdecode, rfl, hiterations, by decide +kernel⟩

end MapSpace

end LoopTiling
