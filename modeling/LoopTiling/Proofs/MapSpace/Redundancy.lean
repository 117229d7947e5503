import LoopTiling.Proofs.MapSpace.Pruning
import LoopTiling.Proofs.MapSpace.Records

/-!
# Pruning removes only redundancy

Two mappings are equivalent if they differ only in where they put the unit dimensions of their levels.
Equivalent mappings of the spaces with and without pruning have the same numbers of instances. Where no
spatial level pins its split, each mapping of the space without pruning is equivalent to exactly one
with pruning, and none of the latter is without an equivalent mapping.
-/
namespace LoopTiling

open MapSpace

namespace Mapping

/-- Mappings with the same factors, with the same orders but for the unit dimensions of the levels, and
with the same other dimensions on the X axes. -/
structure Equivalent (w : Workload) (levels : List Level) (m m' : Mapping) : Prop where
  loopBounds : m.loopBounds = m'.loopBounds
  order : ∀ e ∈ levels.zipIdx, ∃ o o', m.dimOrder e.2 = .ok o ∧ m'.dimOrder e.2 = .ok o' ∧
    o.filter (fun d => !isUnit w e.1 d) = o'.filter fun d => !isUnit w e.1 d
  group : ∀ e ∈ levels.zipIdx, e.1.isSpatial → ∃ x x', m.dimsOnX e.2 = .ok x ∧
    m'.dimsOnX e.2 = .ok x' ∧ ∀ d, !isUnit w e.1 d → (d ∈ x ↔ d ∈ x')

variable {w : Workload} {h : Hierarchy} {m m' : Mapping} {c c' : Choice}

theorem Records.equivalent_iff {h' : Hierarchy} (hlevels : h.levels = h'.levels)
    (hc : c.Fits w h) (hc' : c'.Fits w h') (hm : m.Records h c) (hm' : m'.Records h' c') :
    m.Equivalent w h.levels m' ↔ c.Equivalent w h.levels c' := by
  have hspatial {e : Level × ℕ} (he : e ∈ h.levels.zipIdx) (hs : e.1.isSpatial) :
      e ∈ h.spatialLevels ∧ e ∈ h'.spatialLevels :=
    ⟨List.mem_filter.mpr ⟨he, hs⟩, List.mem_filter.mpr ⟨hlevels ▸ he, hs⟩⟩
  constructor
  · intro hequiv
    refine ⟨?_, fun e he => ?_, fun e he hs => ?_⟩
    · have hcount : h'.levelCount = h.levelCount := (congrArg List.length hlevels).symm
      refine Assignment.factors_eq_of_tables (a := c.toAssignment h) (b := c'.toAssignment h')
        (fun d => (hc.factors d).length) (fun d => (hc'.factors d).length.trans hcount) ?_
      rw [← congrArg Prod.fst hm, ← hcount, ← congrArg Prod.fst hm']
      exact hequiv.loopBounds
    · obtain ⟨o, o', ho, ho', hfilter⟩ := hequiv.order e he
      rw [hm.dimOrder he, Except.ok.injEq] at ho
      rw [hm'.dimOrder (hlevels ▸ he), Except.ok.injEq] at ho'
      rw [ho, ho', hfilter]
    · obtain ⟨x, x', hx, hx', hgroup⟩ := hequiv.group e he hs
      rw [hm.dimsOnX (hspatial he hs).1, Except.ok.injEq] at hx
      rw [hm'.dimsOnX (hspatial he hs).2, Except.ok.injEq] at hx'
      rw [hx, hx']
      exact hgroup
  · intro hequiv
    refine ⟨?_, fun e he => ?_, fun e he hs => ?_⟩
    · have hbounds : ((c.toAssignment h).tables h.levelCount).1 =
          ((c'.toAssignment h').tables h'.levelCount).1 := by
        simp only [Assignment.tables, Choice.toAssignment, hequiv.factors, Hierarchy.levelCount, hlevels]
      exact (congrArg Prod.fst hm).trans (hbounds.trans (congrArg Prod.fst hm').symm)
    · exact ⟨_, _, hm.dimOrder he, hm'.dimOrder (hlevels ▸ he), hequiv.order e he⟩
    · exact ⟨_, _, hm.dimsOnX (hspatial he hs).1, hm'.dimsOnX (hspatial he hs).2, hequiv.group e he hs⟩

end Mapping

theorem MapSpace.Tiles.getD_eq_one {w : Workload} {h : Hierarchy} {d : Dim} {fs : List ℕ}
    (ht : Tiles w h d fs) {e : Level × ℕ} (he : e ∈ h.levels.zipIdx) (hunit : isUnit w e.1 d) :
    fs.getD e.2 1 = 1 := by
  obtain ⟨hi, hl⟩ := List.getElem?_eq_some_iff.mp (List.mem_zipIdx_iff_getElem?.mp he)
  have hi' : e.2 < fs.length := ht.length ▸ hi
  rw [List.getD_eq_getElem _ _ hi']
  rcases Bool.or_eq_true_iff.mp hunit with hbound | hpin
  · have hone : fs.prod = 1 := ht.prod.trans (beq_iff_eq.mp hbound)
    exact Nat.dvd_one.mp (hone ▸ List.dvd_prod (List.getElem_mem hi'))
  · obtain ⟨f, hf, hone⟩ := Option.map_eq_some_iff.mp (beq_iff_eq.mp hpin)
    rw [← hl] at hf
    have hget := (List.forall₂_iff_get.mp ht.pinned).2 e.2 hi hi' f hf
    rw [hone, List.get_eq_getElem] at hget
    exact Int.ofNat_inj.mp hget

/-- Plans whose orders at a place, and whose orders before the cut, agree but for dimensions with factor
one have the same numbers of instances there. -/
theorem Plan.instances_eq {p p' : Plan} {k : ℕ} {unit : Dim → Bool}
    (hone : ∀ d, unit d → p.factorAt k d = 1) (hfactor : p'.factorAt k = p.factorAt k)
    (horder : (p.order k).filter (fun d => !unit d) = (p'.order k).filter fun d => !unit d)
    (htake : ((p.order k).take (p.cut k)).filter (fun d => !unit d) =
      ((p'.order k).take (p'.cut k)).filter fun d => !unit d) :
    p.instances k = p'.instances k := by
  have hone' : ∀ d, (!unit d) = false → p.factorAt k d = 1 := fun d hd => hone d (by simpa using hd)
  have hdrop := UnitDims.filter_drop_eq horder htake
  -- Unit dimensions contribute ones, so both products run over the other dimensions only.
  rw [instances, instances, hfactor]
  refine congrArg₂ Prod.mk ?_ ?_
  · rw [UnitDims.prod_map_filter hone', htake, ← UnitDims.prod_map_filter hone']
  · rw [UnitDims.prod_map_filter hone', hdrop, ← UnitDims.prod_map_filter hone']

/-- The factors on either axis of equivalent choices have the same product. -/
theorem Choice.Equivalent.instances_eq {w : Workload} {h : Hierarchy} {c c' : Choice}
    (hequiv : c.Equivalent w h.levels c') (hc : c.Fits w h)
    {e : Level × ℕ} (he : e ∈ h.spatialLevels) :
    c.toPlan.instances e.2 = c'.toPlan.instances e.2 := by
  obtain ⟨hmem, hs⟩ := List.mem_filter.mp he
  have hfactor : c'.toPlan.factorAt e.2 = c.toPlan.factorAt e.2 := by
    funext d
    rw [Plan.factorAt, Plan.factorAt, Choice.toPlan, Choice.toPlan, hequiv.factors]
  have hnodup : (c.order e.2).Nodup := (hc.order e hmem).1.nodup_iff.mpr Dim.nodup_all
  exact Plan.instances_eq (fun d hd => (hc.factors d).getD_eq_one hmem hd) hfactor
    (hequiv.order e hmem)
    (UnitDims.filter_take_eq_of_mem_iff hnodup (hequiv.order e hmem) (hequiv.group e hmem hs))

namespace MapSpace

variable {w : Workload} {h : Hierarchy}

theorem size_patternAt_le {full : Hierarchy} (hfull : full.prunes = false) (l : Level) :
    (patternAt w h l).size ≤ (patternAt w full l).size := by
  have hnone : prunedAt w full l = [] := if_neg (by simp [hfull])
  have hbaked : ∀ d, d ∈ startOf w full l → d ∈ startOf w h l := by
    intro d hd
    have hmem : d ∈ l.lead := by simpa [startOf, hnone] using hd
    by_cases hpruned : d ∈ prunedAt w h l
    · exact List.mem_append_left _ hpruned
    · exact List.mem_append_right _ (List.mem_filter.mpr ⟨hmem, decide_eq_true hpruned⟩)
  refine Radix.factorial_le (List.Sublist.length_le ?_)
  have hfree : ∀ d, decide (d ∉ startOf w h l) = true → decide (d ∉ startOf w full l) = true := by
    intro d hd
    rw [decide_eq_true_iff] at hd ⊢
    exact fun hmem => hd (hbaked d hmem)
  exact List.monotone_filter_right Dim.all hfree

theorem size_ruleAt_le {full : Hierarchy} (hfull : full.prunes = false) (l : Level) :
    (ruleAt w h l).size ≤ (ruleAt w full l).size := by
  have hnone : prunedAt w full l = [] := if_neg (by simp [hfull])
  rw [ruleAt, ruleAt, hnone]
  cases l.split with
  | some split => exact Nat.le_refl 1
  | none =>
    simp only [SplitRule.size, Numeral.toInt_plain, List.length_nil]
    omega

theorem levels_eq (levels : List Level) (v v' : Value) :
    Hierarchy.levels ⟨levels, v⟩ = Hierarchy.levels ⟨levels, v'⟩ := rfl

section Built

variable [Text.DigitLimit]

/-- Whether a mapping is the one that some index of a mapspace names. -/
def Has (m : MapSpace) (mp : Mapping) : Prop := ∃ i < m.size, m.decode (.int i) = .ok mp

theorem exists_choice (ha : Assembles w h) (hfree : h.SplitsFree) {i : ℕ}
    (hi : i < (layout w h).size) : ∃ mp c, (layout w h).decode (.int i) = .ok mp ∧ c.Fits w h ∧
      assignmentOf w h i = c.toAssignment h ∧ mp.Records h c := by
  obtain ⟨c, hc, hassign⟩ := Choice.exists_eq_toAssignment hfree ((bijOn_assignmentOf ha).mapsTo hi)
  refine ⟨_, c, decode_layout ha hi, hc, hassign, ?_⟩
  rw [Mapping.Records, ← hassign]
  rfl

theorem exists_index (ha : Assembles w h) (hfree : h.SplitsFree) {c : Choice} (hc : c.Fits w h) :
    ∃ i < (layout w h).size, assignmentOf w h i = c.toAssignment h ∧
      ∃ mp, (layout w h).decode (.int i) = .ok mp ∧ mp.Records h c := by
  obtain ⟨i, hi, hassign⟩ := (bijOn_assignmentOf ha).surjOn (hc.isFor hfree)
  refine ⟨i, hi, hassign, _, decode_layout ha hi, ?_⟩
  rw [Mapping.Records, ← hassign]
  rfl

theorem Has.exists_choice (ha : Assembles w h) (hfree : h.SplitsFree) {mp : Mapping}
    (hmp : (layout w h).Has mp) : ∃ c : Choice, c.Fits w h ∧ mp.Records h c := by
  obtain ⟨i, hi, hdecode⟩ := hmp
  obtain ⟨mp', c, hdecode', hc, -, hrec⟩ := MapSpace.exists_choice ha hfree hi
  rw [hdecode, Except.ok.injEq] at hdecode'
  exact ⟨c, hc, hdecode' ▸ hrec⟩

variable {levels : List Level} {off on : Value}

theorem Assembles.of_levels (ha : Assembles w ⟨levels, off⟩) : Assembles w ⟨levels, on⟩ :=
  ⟨ha.accepts, ha.lead_nodup, ha.split_range⟩

/-- Pruning leaves no space larger, so that what can be shown without it can be shown with it. -/
theorem IsShown.of_not_prunes (hoff : Hierarchy.prunes ⟨levels, off⟩ = false)
    (hs : (layout w ⟨levels, off⟩).IsShown) : (layout w ⟨levels, on⟩).IsShown := by
  have horders : OrderSpace.volume (patternsOf w ⟨levels, on⟩) ≤
      OrderSpace.volume (patternsOf w ⟨levels, off⟩) := by
    rw [OrderSpace.volume, OrderSpace.volume, patternsOf, patternsOf, List.map_map, List.map_map]
    exact Radix.volume_map_le fun l _ => size_patternAt_le hoff l
  have hsplits : Radix.volume ((rulesOf w ⟨levels, on⟩).map fun e => e.1.size) ≤
      Radix.volume ((rulesOf w ⟨levels, off⟩).map fun e => e.1.size) := by
    rw [rulesOf, rulesOf, List.map_map, List.map_map]
    exact Radix.volume_map_le fun e _ => size_ruleAt_le hoff e.1
  refine ⟨hs.name, Text.isShort_mono ?_ hs.size, hs.factors, Text.isShort_mono horders hs.orders,
    Text.isShort_mono hsplits hs.splits⟩
  simp only [size_layout, partSizes, Radix.volume, Nat.mul_one]
  exact Nat.mul_le_mul_left _ (Nat.mul_le_mul horders hsplits)

theorem existsUnique_equivalent (hoff : Hierarchy.prunes ⟨levels, off⟩ = false)
    (hon : Hierarchy.prunes ⟨levels, on⟩ = true) (hfree : Hierarchy.SplitsFree ⟨levels, off⟩)
    (ha : Assembles w ⟨levels, off⟩) {c : Choice} (hc : c.Fits w ⟨levels, off⟩) {mp : Mapping}
    (hrec : mp.Records ⟨levels, off⟩ c) : ∃! j, j < (layout w ⟨levels, on⟩).size ∧
      ∃ mp', (layout w ⟨levels, on⟩).decode (.int j) = .ok mp' ∧ mp.Equivalent w levels mp' := by
  have ha' : Assembles w ⟨levels, on⟩ := ha.of_levels
  have hprune : (c.prune w levels).Fits w ⟨levels, on⟩ := hc.prune (levels_eq levels off on) hoff hon
  obtain ⟨j, hj, hassign, mp', hdecode', hrec'⟩ := exists_index ha' hfree hprune
  refine ⟨j, ⟨hj, mp', hdecode', ?_⟩, ?_⟩
  · exact (hrec.equivalent_iff (levels_eq levels off on) hc hprune hrec').mpr (Choice.equivalent_prune c)
  -- Any other such index names a choice equivalent to the same one, hence the same member.
  · rintro k ⟨hk, mp'', hdecode'', hequiv⟩
    obtain ⟨mp₀, c', hdecode₀, hc', hassign', hrec''⟩ := exists_choice ha' hfree hk
    obtain rfl : mp₀ = mp'' := Except.ok.inj (hdecode₀.symm.trans hdecode'')
    have hcequiv := (hrec.equivalent_iff (levels_eq levels off on) hc hc' hrec'').mp hequiv
    have hsame := hc'.toAssignment_eq hon hprune
      (hcequiv.symm.trans (Choice.equivalent_prune c))
    apply (bijOn_assignmentOf ha').injOn hk hj
    rw [hassign', hassign, hsame]

theorem exists_equivalent (hoff : Hierarchy.prunes ⟨levels, off⟩ = false)
    (hon : Hierarchy.prunes ⟨levels, on⟩ = true) (hfree : Hierarchy.SplitsFree ⟨levels, off⟩)
    (ha : Assembles w ⟨levels, off⟩) {c : Choice} (hc : c.Fits w ⟨levels, on⟩) {mp' : Mapping}
    (hrec' : mp'.Records ⟨levels, on⟩ c) : ∃ i < (layout w ⟨levels, off⟩).size,
      ∃ mp, (layout w ⟨levels, off⟩).decode (.int i) = .ok mp ∧ mp.Equivalent w levels mp' := by
  have hunprune : (c.unprune w levels).Fits w ⟨levels, off⟩ :=
    hc.unprune (levels_eq levels off on) hoff ha.lead_nodup
  obtain ⟨i, hi, -, mp, hdecode, hrec⟩ := exists_index ha hfree hunprune
  have hequiv := hc.equivalent_unprune hon
  exact ⟨i, hi, mp, hdecode,
    (hrec.equivalent_iff (levels_eq levels off on) hunprune hc hrec').mpr hequiv⟩

/-- For levels of which no spatial one pins its split, the space without pruning can only be built if
the one with pruning can. Then every mapping of the former is equivalent to the mapping of exactly one
index of the latter, every mapping of the latter is equivalent to one of the former, and equivalent
mappings of either space have the same numbers of instances at every spatial level. -/
theorem prune_removes_only_redundancy (hoff : off.truthy = false) (hon : on.truthy = true)
    (hfree : ∀ l ∈ levels, l.isSpatial → l.split = none) {full : MapSpace}
    (hfull : build w ⟨levels, off⟩ = .ok full) :
    ∃ pruned, build w ⟨levels, on⟩ = .ok pruned ∧
      (∀ i < full.size, ∃ mp, full.decode (.int i) = .ok mp ∧
        ∃! j, j < pruned.size ∧ ∃ mp', pruned.decode (.int j) = .ok mp' ∧
          mp.Equivalent w levels mp') ∧
      (∀ j < pruned.size, ∃ mp', pruned.decode (.int j) = .ok mp' ∧
        ∃ i < full.size, ∃ mp, full.decode (.int i) = .ok mp ∧ mp.Equivalent w levels mp') ∧
      ∀ mp mp', (full.Has mp ∨ pruned.Has mp) → (full.Has mp' ∨ pruned.Has mp') →
        mp.Equivalent w levels mp' → ∀ e ∈ levels.zipIdx, e.1.isSpatial →
          ∃ x y, mp.fanout (.int e.2) = .ok (x, y) ∧ mp'.fanout (.int e.2) = .ok (x, y) := by
  obtain ⟨ha, rfl, hshown⟩ := build_eq_ok.mp hfull
  have ha' : Assembles w ⟨levels, on⟩ := ha.of_levels
  refine ⟨_, build_eq_ok.mpr ⟨ha', rfl, hshown.of_not_prunes hoff⟩, ?_, ?_, ?_⟩
  · intro i hi
    obtain ⟨mp, c, hdecode, hc, -, hrec⟩ := exists_choice ha hfree hi
    exact ⟨mp, hdecode, existsUnique_equivalent hoff hon hfree ha hc hrec⟩
  · intro j hj
    obtain ⟨mp', c, hdecode', hc, -, hrec'⟩ := exists_choice ha' hfree hj
    exact ⟨mp', hdecode', exists_equivalent hoff hon hfree ha hc hrec'⟩
  · intro mp mp' hmp hmp' hequiv e he hs
    have hrecords {mp : Mapping} (h : (layout w ⟨levels, off⟩).Has mp ∨
        (layout w ⟨levels, on⟩).Has mp) : ∃ prune c,
          Choice.Fits w ⟨levels, prune⟩ c ∧ mp.Records ⟨levels, prune⟩ c := by
      rcases h with h | h
      · obtain ⟨c, hc, hrec⟩ := h.exists_choice ha hfree
        exact ⟨off, c, hc, hrec⟩
      · obtain ⟨c, hc, hrec⟩ := h.exists_choice ha' hfree
        exact ⟨on, c, hc, hrec⟩
    obtain ⟨prune, c, hc, hrec⟩ := hrecords hmp
    obtain ⟨prune', c', hc', hrec'⟩ := hrecords hmp'
    have hspatial (v : Value) : e ∈ Hierarchy.spatialLevels ⟨levels, v⟩ := List.mem_filter.mpr ⟨he, hs⟩
    have hcequiv := (hrec.equivalent_iff (levels_eq levels prune prune') hc hc' hrec').mp hequiv
    refine ⟨_, _, hrec.fanout (hspatial prune), ?_⟩
    rw [hrec'.fanout (hspatial prune'), hcequiv.instances_eq hc (hspatial prune)]

end Built

theorem prune_removes_only_redundancy_sample : ∃ full pruned,
    build sampleWorkload (sampleHierarchy false none) = .ok full ∧ full.size = 126414618624000 ∧
      build sampleWorkload (sampleHierarchy true none) = .ok pruned ∧ pruned.size = 31104 ∧
        ∀ i < full.size, ∃ mp, full.decode (.int i) = .ok mp ∧
          ∃! j, j < pruned.size ∧ ∃ mp', pruned.decode (.int j) = .ok mp' ∧
            mp.Equivalent sampleWorkload (sampleHierarchy true none).levels mp' := by
  obtain ⟨full, hfull, hsize⟩ := exists_build (w := sampleWorkload)
    (h := sampleHierarchy false none) (n := 126414618624000) (by decide +kernel)
  obtain ⟨pruned, hpruned, hsize'⟩ := exists_build (w := sampleWorkload)
    (h := sampleHierarchy true none) (n := 31104) (by decide +kernel)
  obtain ⟨m, hm, hunique, -, -⟩ :=
    prune_removes_only_redundancy rfl (show (Value.flag true).truthy = true from rfl)
      (by decide) hfull
  obtain rfl := Except.ok.inj (hm.symm.trans hpruned)
  exact ⟨full, m, hfull, hsize, hpruned, hsize', hunique⟩

end MapSpace

end LoopTiling
