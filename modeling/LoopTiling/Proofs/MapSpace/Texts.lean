import Mathlib.Algebra.Order.BigOperators.GroupWithZero.List
import Mathlib.Algebra.Order.Ring.Nat
import LoopTiling.Proofs.Faults
import LoopTiling.Proofs.MapSpace.Records
import LoopTiling.Proofs.Sorting

/-!
# What a decoded mapping shows

A mapping that records a member of a mapspace has a text as soon as the names and numbers that it shows
have texts. These are the names and places of the levels, the factors, and the splits and the numbers of
instances of the spatial levels; none of the numbers is larger than the product of the bounds, the number
of levels or that of dimensions.
-/
namespace LoopTiling

namespace Plan

variable {w : Workload} {h : Hierarchy} {p : Plan} {e : Level × ℕ}

theorem Fits.factorAt_pos (hp : p.Fits w h) (k : ℕ) (d : Dim) : 0 < p.factorAt k d :=
  (hp.factors d).getD_pos k

theorem Fits.factorAt_le (hp : p.Fits w h) (k : ℕ) (d : Dim) : p.factorAt k d ≤ w.bounds.get d := by
  have hfactors := hp.factors d
  have hpos : 0 < (p.factors.get d).prod := List.prod_pos hfactors.pos
  rw [← hfactors.prod, factorAt, List.getD_eq_getElem?_getD]
  cases hk : (p.factors.get d)[k]? with
  | none => exact hpos
  | some n => exact Nat.le_of_dvd hpos (List.dvd_prod (List.mem_of_getElem? hk))

/-- The product of the factors of some dimensions at a place is at most that of all bounds. -/
theorem Fits.prod_le_volume (hp : p.Fits w h) (k : ℕ) {ds : List Dim} (hds : ds.Subperm Dim.all) :
    (ds.map (p.factorAt k)).prod ≤ Radix.volume w.bounds.toList := by
  have hpos : 0 < (Dim.all.map (p.factorAt k)).prod := by
    refine List.prod_pos fun n hn => ?_
    obtain ⟨d, -, rfl⟩ := List.mem_map.mp hn
    exact hp.factorAt_pos k d
  obtain ⟨ds', hperm, hsub⟩ := hds
  rw [Radix.volume_eq_prod, PerDim.toList_eq, ← (hperm.map _).prod_eq]
  calc (ds'.map (p.factorAt k)).prod
      ≤ (Dim.all.map (p.factorAt k)).prod := Nat.le_of_dvd hpos (hsub.map _).prod_dvd_prod
    _ ≤ (Dim.all.map w.bounds.get).prod :=
        List.prod_map_le_prod_map₀ _ _ (fun _ _ => Nat.zero_le _) fun d _ => hp.factorAt_le k d

theorem Fits.instances_le_volume (hp : p.Fits w h) (he : e ∈ h.levels.zipIdx) :
    (p.instances e.2).1 ≤ Radix.volume w.bounds.toList ∧
      (p.instances e.2).2 ≤ Radix.volume w.bounds.toList := by
  have horder : (p.order e.2).Subperm Dim.all := (hp.order e he).1.subperm
  exact ⟨hp.prod_le_volume e.2 ((List.take_sublist _ _).subperm.trans horder),
    hp.prod_le_volume e.2 ((List.drop_sublist _ _).subperm.trans horder)⟩

end Plan

namespace Mapping

theorem joined_names (ds : List Dim) : joined (names ds) = .ok (String.join (ds.map Dim.name)) := by
  rw [joined, bind_eq_ok]
  refine ⟨ds.map Dim.name, mapM_eq_ok.mpr ?_, rfl⟩
  rw [names, List.forall₂_map_left_iff, List.forall₂_map_right_iff, List.forall₂_same]
  exact fun d _ => rfl

variable {w : Workload} {h : Hierarchy} {m : Mapping} {p : Plan} {e : Level × ℕ}

theorem Follows.has_splits_eq_false (hm : m.Follows h p) (he : e ∈ h.levels.zipIdx)
    (hspatial : e.1.isSpatial = false) : m.splits.has (.int e.2) = .ok false := by
  have htable : m.splits = .map ((p.toAssignment h).splits.map fun e =>
      (e.1.toValue, e.2.toValue)) := congrArg (fun t => t.2.2) hm
  have hplaces : ∀ e' ∈ h.spatialLevels, e'.2 ≠ e.2 := by
    intro e' he' hplace
    obtain ⟨hmem, hs⟩ := List.mem_filter.mp he'
    rw [fst_eq_of_mem_zipIdx hmem he hplace, hspatial] at hs
    cases hs
  have hfind := Value.find?_map_int_eq_none (fun e : Level × ℕ => (p.split e.2).toValue) hplaces
  rw [Plan.toAssignment, List.map_map] at htable
  rw [htable, Value.has, Value.lookup_int]
  exact congrArg (fun v? => Except.ok (Option.isSome v?)) hfind

theorem Follows.exists_entry (hm : m.Follows h p) (he : e ∈ h.levels.zipIdx) : ∃ es,
    m.loopBounds = .map es ∧ (.int e.2, MapSpace.factorsOfLevel p.factors e.2) ∈ es := by
  have hlt : e.2 < h.levelCount :=
    (List.getElem?_eq_some_iff.mp (List.mem_zipIdx_iff_getElem?.mp he)).1
  exact ⟨_, congrArg Prod.fst hm, List.mem_map.mpr ⟨e.2, List.mem_range.mpr hlt, rfl⟩⟩

theorem Follows.exists_split (hm : m.Follows h p) (he : e ∈ h.spatialLevels) : ∃ es,
    m.splits = .map es ∧ (.int e.2, (p.split e.2).toValue) ∈ es := by
  refine ⟨_, congrArg (fun t => t.2.2) hm, ?_⟩
  exact List.mem_map.mpr ⟨_, List.mem_map.mpr ⟨e, he, rfl⟩, rfl⟩

section Limited

variable [Text.DigitLimit]

/-- Whether the names and the numbers that a mapping shows have texts. -/
structure Legible (m : Mapping) : Prop where
  names : ∀ vs, m.levelNames = .list vs → ∀ v ∈ vs, v.text?.isSome
  places : ∀ es, m.loopBounds = .map es → ∀ e ∈ es, e.1.text?.isSome
  factors : ∀ es, m.loopBounds = .map es → ∀ e ∈ es, ∀ fs, e.2 = .map fs → ∀ f ∈ fs, f.2.text?.isSome
  splits : ∀ es, m.splits = .map es → ∀ e ∈ es, e.2.text?.isSome
  instances : ∀ es, m.splits = .map es → ∀ e ∈ es, ∀ x y, m.fanout e.1 = .ok (x, y) →
    x.toValue.text?.isSome ∧ y.toValue.text?.isSome

theorem failsOnly_loopTexts {L : Prop} {k : ℕ}
    (hfactors : L → ∀ d, (Value.int (p.factorAt k d)).text?.isSome) (ds : List Dim) :
    FailsOnly (Fault.Unshown L) (loopTexts (MapSpace.factorsOfLevel p.factors k) (names ds)) := by
  refine FailsOnly.bind (FailsOnly.mapM fun v hv => ?_) fun _ _ => failsOnly_ok _
  obtain ⟨d, -, rfl⟩ := List.mem_map.mp (List.mem_reverse.mp hv)
  have hfactor : getD (MapSpace.factorsOfLevel p.factors k) (.text d.name) (.int 1) =
      .ok (.int (p.factorAt k d)) := getD_name (fun d => .int ((p.factors.get d).getD k 1)) d _
  have hless : (Value.int 1).less (.int (p.factorAt k d)) =
      .ok (decide (1 < (p.factorAt k d : ℤ))) := Value.less_int 1 _
  rw [loopText?, hfactor, ok_bind, hless, ok_bind]
  refine FailsOnly.ite (fun _ => ?_) fun _ => failsOnly_ok _
  exact (failsOnly_shown fun _ => rfl).bind fun _ _ =>
    (failsOnly_shown fun hl => hfactors hl d).bind fun _ _ => failsOnly_ok _

theorem Follows.failsOnly_splitLine (hm : m.Follows h p) (he : e ∈ h.spatialLevels)
    (hs : 0 ≤ (p.split e.2).toInt) : FailsOnly (Fault.Unshown m.Legible) (m.splitLine (.int e.2)) := by
  obtain ⟨es, hes, hmem⟩ := hm.exists_split he
  have hinstances (hl : m.Legible) := hl.instances es hes _ hmem _ _ (hm.fanout he hs)
  rw [splitLine, hm.spatialPartition he hs, ok_bind]
  simp only [hm.fanout he hs, (hm.has_splits he).2, joined_names, ok_bind]
  exact (failsOnly_shown fun hl => hl.splits es hes _ hmem).bind fun _ _ =>
    (failsOnly_shown fun hl => (hinstances hl).1).bind fun _ _ =>
      (failsOnly_shown fun hl => (hinstances hl).2).bind fun _ _ => failsOnly_ok _

theorem levelName_eq (hm : m.levelNames = .list h.names) (he : e ∈ h.levels.zipIdx) :
    m.levelName (.int e.2) = .ok e.1.name := by
  have hplace := List.mem_zipIdx_iff_getElem?.mp he
  have hlt : e.2 < h.names.length := by
    rw [Hierarchy.names, List.length_map]
    exact (List.getElem?_eq_some_iff.mp hplace).1
  have hitem : h.names[e.2]? = some e.1.name := by
    rw [Hierarchy.names, List.getElem?_map, hplace]
    rfl
  have hlength : m.levelNames.length = .ok h.names.length := by rw [hm]; rfl
  have hpart : (Value.list h.names).part (.int e.2) = .ok e.1.name := by
    have hindex : (Value.int e.2).index? = some (e.2 : ℤ) := rfl
    have hneg : ¬ (e.2 : ℤ) < 0 := by omega
    simp only [Value.part, hindex, Value.items, Value.itemAt, ok_bind, if_neg hneg, Int.toNat_natCast,
      hitem]
  rw [levelName, hlength, ok_bind, Value.less_int, ok_bind, if_pos, hm, hpart]
  exact decide_eq_true (Int.ofNat_lt.mpr hlt)

theorem Follows.failsOnly_levelLines (hm : m.Follows h p) (hnames : m.levelNames = .list h.names)
    (hs : ∀ e ∈ h.spatialLevels, 0 ≤ (p.split e.2).toInt) (he : e ∈ h.levels.zipIdx) :
    FailsOnly (Fault.Unshown m.Legible)
      (m.levelLines (.int e.2) (MapSpace.factorsOfLevel p.factors e.2)) := by
  obtain ⟨es, hes, hmem⟩ := hm.exists_entry he
  have hfactors (hl : m.Legible) (d : Dim) : (Value.int (p.factorAt e.2 d)).text?.isSome :=
    hl.factors es hes _ hmem _ rfl _ (List.mem_map.mpr ⟨d, Dim.mem_all d, rfl⟩)
  have hname : e.1.name ∈ h.names :=
    List.mem_map_of_mem (List.mem_of_getElem? (List.mem_zipIdx_iff_getElem?.mp he))
  obtain ⟨spatial, hhas, hline⟩ : ∃ spatial, m.splits.has (.int e.2) = .ok spatial ∧
      (spatial → FailsOnly (Fault.Unshown m.Legible) (m.splitLine (.int e.2))) := by
    cases hspatial : e.1.isSpatial with
    | true =>
      have hmem : e ∈ h.spatialLevels := List.mem_filter.mpr ⟨he, hspatial⟩
      exact ⟨true, (hm.has_splits hmem).1, fun _ => hm.failsOnly_splitLine hmem (hs e hmem)⟩
    | false => exact ⟨false, hm.has_splits_eq_false he hspatial, nofun⟩
  rw [levelLines, levelName_eq hnames he, ok_bind, hhas, ok_bind]
  simp only [hm.loopOrder he, joined_names, ok_bind]
  refine (failsOnly_shown fun hl => hl.places es hes _ hmem).bind fun _ _ =>
    (failsOnly_shown fun hl => hl.names _ hnames _ hname).bind fun _ _ =>
      (failsOnly_loopTexts hfactors (p.order e.2)).bind fun _ _ => ?_
  exact FailsOnly.ite (fun hspatial => (hline hspatial).bind fun _ _ => failsOnly_ok _)
    fun _ => failsOnly_ok _

/-- The text of a mapping that records a member of a mapspace fails only if the mapping is not legible. -/
theorem Follows.failsOnly_bodyLines (hm : m.Follows h p) (hnames : m.levelNames = .list h.names)
    (hs : ∀ e ∈ h.spatialLevels, 0 ≤ (p.split e.2).toInt) :
    FailsOnly (Fault.Unshown m.Legible) m.bodyLines := by
  have htable : m.loopBounds = .map ((List.range h.levelCount).map fun (level : ℕ) =>
      (.int level, MapSpace.factorsOfLevel p.factors level)) := congrArg Prod.fst hm
  rw [bodyLines, htable, Value.entries, ok_bind, Value.sortedDown_places, ok_bind]
  refine FailsOnly.bind (FailsOnly.mapM fun e he => ?_) fun _ _ => failsOnly_ok _
  obtain ⟨k, hk, rfl⟩ := List.mem_map.mp (List.mem_reverse.mp he)
  obtain ⟨l, hl⟩ : ∃ l, h.levels[k]? = some l :=
    ⟨_, List.getElem?_eq_getElem (List.mem_range.mp hk)⟩
  exact hm.failsOnly_levelLines hnames hs (e := (l, k)) (List.mem_zipIdx_iff_getElem?.mpr hl)

theorem isSome_text?_int {n : ℕ} (hn : Text.isShort n) : (Value.int n).text?.isSome := by
  rw [Value.text?, Value.quoted?, Text.decimal?, if_pos hn]
  · rfl
  all_goals simp

theorem isSome_text?_split {split : Numeral} (hs : 0 ≤ split.toInt ∧ split.toInt ≤ Dim.count)
    (hdims : Text.isShort Dim.count) : split.toValue.text?.isSome := by
  cases split with
  | dim d => rfl
  | plain n =>
    obtain ⟨k, rfl⟩ := Int.eq_ofNat_of_zero_le hs.1
    exact isSome_text?_int (Text.isShort_mono (Int.ofNat_le.mp hs.2) hdims)

/-- Where the names of the levels have texts, and the product of the bounds and the numbers of levels
and of dimensions are short, a mapping is legible. -/
theorem Follows.legible (hm : m.Follows h p) (hp : p.Fits w h) (hnames : m.levelNames = .list h.names)
    (hrange : ∀ l ∈ h.levels, MapSpace.SplitInRange l) (hlevels : ∀ l ∈ h.levels, l.name.text?.isSome)
    (hcount : Text.isShort h.levelCount) (hdims : Text.isShort Dim.count)
    (hvolume : Text.isShort (Radix.volume w.bounds.toList)) : m.Legible := by
  have hfactor (k : ℕ) (d : Dim) : p.factorAt k d ≤ Radix.volume w.bounds.toList := by
    simpa using hp.prod_le_volume k (List.singleton_subperm_iff.mpr (Dim.mem_all d))
  refine ⟨?_, ?_, ?_, ?_, ?_⟩
  · rintro _ hes v hv
    obtain rfl := Value.list.inj (hnames.symm.trans hes)
    obtain ⟨l, hl, rfl⟩ := List.mem_map.mp hv
    exact hlevels l hl
  · rintro _ hes e he
    obtain rfl := Value.map.inj ((congrArg Prod.fst hm).symm.trans hes)
    obtain ⟨k, hk, rfl⟩ := List.mem_map.mp he
    exact isSome_text?_int (Text.isShort_mono (List.mem_range.mp hk).le hcount)
  · rintro _ hes e he fs hfs f hf
    obtain rfl := Value.map.inj ((congrArg Prod.fst hm).symm.trans hes)
    obtain ⟨k, hk, rfl⟩ := List.mem_map.mp he
    obtain rfl := Value.map.inj hfs
    obtain ⟨d, -, rfl⟩ := List.mem_map.mp hf
    exact isSome_text?_int (Text.isShort_mono (hfactor k d) hvolume)
  · rintro _ hes _ hv
    obtain rfl := Value.map.inj ((congrArg (fun t => t.2.2) hm).symm.trans hes)
    obtain ⟨_, hs, rfl⟩ := List.mem_map.mp hv
    obtain ⟨e, he, rfl⟩ := List.mem_map.mp hs
    exact isSome_text?_split (hp.split_range hrange he) hdims
  · rintro _ hes _ hv x y hxy
    obtain rfl := Value.map.inj ((congrArg (fun t => t.2.2) hm).symm.trans hes)
    obtain ⟨_, hs, rfl⟩ := List.mem_map.mp hv
    obtain ⟨e, he, rfl⟩ := List.mem_map.mp hs
    have hfanout := hm.fanout he (hp.split_range hrange he).1
    obtain ⟨rfl, rfl⟩ := Prod.mk.inj (Except.ok.inj (hfanout.symm.trans hxy))
    obtain ⟨hx, hy⟩ := hp.instances_le_volume (List.mem_filter.mp he).1
    exact ⟨isSome_text?_int (Text.isShort_mono hx hvolume),
      isSome_text?_int (Text.isShort_mono hy hvolume)⟩

end Limited

end Mapping

end LoopTiling
