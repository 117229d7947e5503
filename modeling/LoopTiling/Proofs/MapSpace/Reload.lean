import LoopTiling.Proofs.MapSpace.Build
import LoopTiling.Proofs.Reload

/-!
# The mapspace of what is read back

The construction of a mapspace reads the bounds and the name of the workload, and of the levels
everything but the form of their truth values. So a workload and a hierarchy that are read back from
their configurations have the same mapspace: it is built in the same cases, with the same sizes and the
same pruned dimensions, and every index names the same mapping.
-/
namespace LoopTiling

namespace Hierarchy

theorem levelCount_plain (h : Hierarchy) : h.plain.levelCount = h.levelCount := List.length_map _

theorem pinsOf_plain (h : Hierarchy) (d : Dim) : h.plain.pinsOf d = h.pinsOf d := by
  rw [pinsOf, pinsOf, plain, List.zipIdx_map, List.filterMap_map]
  rfl

end Hierarchy

namespace MapSpace

variable {w w' : Workload} {h : Hierarchy}

theorem prunedAt_plain (hb : w'.bounds = w.bounds) (l : Level) :
    prunedAt w' h.plain l.plain = prunedAt w h l := by
  have hunit : isUnit w' l.plain = isUnit w l := by
    funext d
    rw [isUnit, isUnit, hb]
    rfl
  rw [prunedAt, prunedAt, hunit]
  rfl

theorem tablesOf_plain (hb : w'.bounds = w.bounds) : tablesOf w' h.plain = tablesOf w h := by
  simp only [tablesOf, hb, h.levelCount_plain, h.pinsOf_plain]

theorem patternsOf_plain (hb : w'.bounds = w.bounds) : patternsOf w' h.plain = patternsOf w h := by
  rw [patternsOf, patternsOf, Hierarchy.plain, List.map_map, List.map_inj_left]
  intro l _
  exact congrArg (OrderPattern.ofLead · l.lead) (prunedAt_plain hb l)

theorem ruleAt?_plain (hb : w'.bounds = w.bounds) (l : Level) :
    ruleAt? w' h.plain l.plain = ruleAt? w h l := by
  have hspatial : l.plain.isSpatial = l.isSpatial := rfl
  have hsplit : l.plain.split = l.split := rfl
  rw [ruleAt?, ruleAt?, ruleAt, ruleAt, hspatial, hsplit, prunedAt_plain hb]

theorem rulesOf_plain (hb : w'.bounds = w.bounds) : rulesOf w' h.plain = rulesOf w h := by
  have hlevels : h.plain.levels = h.levels.map Level.plain := rfl
  rw [rulesOf_eq_filterMap, rulesOf_eq_filterMap, hlevels, List.zipIdx_map, List.filterMap_map]
  refine List.filterMap_congr fun e _ => ?_
  exact congrArg (Option.map (·, e.2)) (ruleAt?_plain hb e.1)

theorem layout_plain (hb : w'.bounds = w.bounds) : layout w' h.plain =
    { layout w h with workload := w', hierarchy := h.plain } := by
  have hpruned : h.plain.levels.map (prunedAt w' h.plain) = h.levels.map (prunedAt w h) := by
    rw [Hierarchy.plain, List.map_map, List.map_inj_left]
    exact fun l _ => prunedAt_plain hb l
  simp only [layout, partSizes, tablesOf_plain hb, patternsOf_plain hb, rulesOf_plain hb,
    h.levelCount_plain, hpruned]

section Building

variable [Text.DigitLimit]

theorem assembles_plain_iff (hb : w'.bounds = w.bounds) :
    Assembles w' h.plain ↔ Assembles w h := by
  have haccepts : AcceptsAll w' h.plain ↔ AcceptsAll w h := by
    simp only [AcceptsAll, hb, h.levelCount_plain, h.pinsOf_plain]
  have hlead : (∀ l ∈ h.plain.levels, l.lead.Nodup) ↔ ∀ l ∈ h.levels, l.lead.Nodup :=
    List.forall_mem_map
  have hsplit : (∀ l ∈ h.plain.levels, SplitInRange l) ↔ ∀ l ∈ h.levels, SplitInRange l :=
    List.forall_mem_map
  constructor
  · rintro ⟨ha, hl, hs⟩
    exact ⟨haccepts.mp ha, hlead.mp hl, hsplit.mp hs⟩
  · rintro ⟨ha, hl, hs⟩
    exact ⟨haccepts.mpr ha, hlead.mpr hl, hsplit.mpr hs⟩

/-- A workload with the same name and bounds on the hierarchy in its plain form has the same mapspace.
-/
theorem build_plain_eq_ok (hn : w'.name = w.name) (hb : w'.bounds = w.bounds) {m' : MapSpace} :
    build w' h.plain = .ok m' ↔ ∃ m, build w h = .ok m ∧
      m' = { m with workload := w', hierarchy := h.plain } := by
  have hshown : (layout w' h.plain).IsShown ↔ (layout w h).IsShown := by
    rw [layout_plain hb]
    constructor
    · rintro ⟨hname, hsize, hf, ho, hs⟩
      exact ⟨hn ▸ hname, hsize, hf, ho, hs⟩
    · rintro ⟨hname, hsize, hf, ho, hs⟩
      exact ⟨hn.symm ▸ hname, hsize, hf, ho, hs⟩
  rw [build_eq_ok, assembles_plain_iff hb, hshown, layout_plain hb]
  constructor
  · rintro ⟨ha, rfl, hs⟩
    exact ⟨_, build_eq_ok.mpr ⟨ha, rfl, hs⟩, rfl⟩
  · rintro ⟨m, hm, rfl⟩
    obtain ⟨ha, rfl, hs⟩ := build_eq_ok.mp hm
    exact ⟨ha, rfl, hs⟩

end Building

theorem decode_plain (hn : w'.name = w.name) (hb : w'.bounds = w.bounds) (v : Value) :
    MapSpace.decode { layout w h with workload := w', hierarchy := h.plain } v =
      (layout w h).decode v := by
  have hmapping (place : ℕ) (a : Assignment) :
      mappingOf { layout w h with workload := w', hierarchy := h.plain } place a =
        (layout w h).mappingOf place a := by
    have hcount := h.levelCount_plain
    have hnames := h.names_plain
    simp only [mappingOf, hcount, hnames, hn, Workload.boundValues, hb]
    rfl
  rw [decode, decode]
  simp only [hmapping]
  rfl

/-- What is decoded can be written. -/
theorem exists_toConfig_mappingOf (m : MapSpace) (place : ℕ) (a : Assignment) :
    ∃ config, (m.mappingOf place a).toConfig = .ok config := by
  have hbounds := Mapping.mapEntries_eq_self (k := fun (level : ℕ) => .int level)
    (g := factorsOfLevel a.factors) (f := fun b => do return .map (← b.toMap)) (fun _ => rfl)
    (List.range m.hierarchy.levelCount)
  have horders := Mapping.mapEntries_eq_self (k := fun (e : List Dim × ℕ) => .int e.2)
    (g := fun e => .list (e.1.map fun d => .text d.name))
    (f := fun p => do return .list (← p.items)) (fun _ => rfl) a.orders.zipIdx
  simp only [Mapping.toConfig, mappingOf, hbounds, horders, ok_bind]
  exact ⟨_, rfl⟩

/-- A workload and a hierarchy that are read back from their configurations have a mapspace if and only
if they had one before, with the same spaces and pruned dimensions, and every index names the same
mapping, which can be written where the index is in range. -/
theorem build_reloaded [Text.DigitLimit] (g : Registry) (hw : w.IsMade) (hh : h.IsMade) {config : Value}
    (hc : w.toConfig = .ok config) (path : Value) :
    ∃ w' h', Workload.ofConfig g config path = .ok w' ∧ Hierarchy.ofConfig h.toConfig = .ok h' ∧
      ((∃ m, build w h = .ok m) ↔ ∃ m, build w' h' = .ok m) ∧
      ∀ m m', build w h = .ok m → build w' h' = .ok m' →
        m'.factors = m.factors ∧ m'.orders = m.orders ∧ m'.splits = m.splits ∧
        m'.sizes = m.sizes ∧ m'.pruned = m.pruned ∧
        (∀ index, m'.decode index = m.decode index) ∧
        ∀ i < m.size, ∃ mapping saved, m.decode (.int i) = .ok mapping ∧
          m'.decode (.int i) = .ok mapping ∧ mapping.toConfig = .ok saved := by
  obtain ⟨w', hw', hn, hb⟩ := Workload.ofConfig_toConfig g hw.valid hc path
  refine ⟨w', h.plain, hw', Hierarchy.ofConfig_toConfig hh.storable, ?_, ?_⟩
  · constructor
    · rintro ⟨m, hm⟩
      exact ⟨_, (build_plain_eq_ok hn hb).mpr ⟨m, hm, rfl⟩⟩
    · rintro ⟨m', hm'⟩
      obtain ⟨m, hm, -⟩ := (build_plain_eq_ok hn hb).mp hm'
      exact ⟨m, hm⟩
  · intro m m' hm hm'
    obtain ⟨_, hm'', rfl⟩ := (build_plain_eq_ok hn hb).mp hm'
    obtain rfl := Except.ok.inj (hm.symm.trans hm'')
    obtain ⟨ha, rfl, -⟩ := build_eq_ok.mp hm
    refine ⟨rfl, rfl, rfl, rfl, rfl, decode_plain hn hb, fun i hi => ?_⟩
    obtain ⟨config, hconfig⟩ := exists_toConfig_mappingOf (layout w h) i (assignmentOf w h i)
    exact ⟨_, config, decode_layout ha hi, (decode_plain hn hb _).trans (decode_layout ha hi), hconfig⟩

/-- A layer one of whose extents is rounded up. -/
def sampleRegistry : Registry where
  layers := [("conv", [(.r, .plain 1), (.s, .plain 1), (.p, .plain 7), (.q, .plain 2), (.c, .plain 1),
    (.k, .plain 6), (.n, .plain 1)])]
  composites := [(7, 8)]

/-- The layer with one of its bounds overridden. -/
def sampleLayerProblem : List (Value × Value) :=
  [(.text "layer", .text "conv"), (.text "N", .int 2), (.text "Wstride", .int 2)]

def sampleLayerWorkload : Workload :=
  ⟨.text "conv", ⟨1, 1, 8, 2, 1, 6, 2⟩, .tuple [.int 2, .int 1], Workload.unitPair, .text "layers"⟩

/-- A spatial level that pins all it can and a temporal one that pins nothing, where texts stand for the
truth values. -/
def sampleTextHierarchy : Hierarchy where
  levels := [{ name := .text "Array", spatial := .text "yes", factors := [(.k, .plain 2)],
               lead := [.k, .p], split := some (.plain 5) },
    { name := .text "Main", spatial := .text "" }]
  prune := .text "no"

theorem isMade_sampleLayerWorkload : sampleLayerWorkload.IsMade := by
  have hlookup : sampleRegistry.lookup (.text "conv") (.flag true) =
      .ok [(.r, .plain 1), (.s, .plain 1), (.p, .plain 8), (.q, .plain 2), (.c, .plain 1),
        (.k, .plain 6), (.n, .plain 1)] := eq_ok_of_toOption (by decide +kernel)
  have hproblem : Workload.problemOf (.map sampleLayerProblem) (.text "layers") =
      .ok sampleLayerProblem := rfl
  have hlayer : Workload.layerOf sampleLayerProblem = (.text "conv", .flag true) := rfl
  have hnamed : ¬ (Value.text "conv").isNull := Bool.false_ne_true
  refine .ofConfig sampleRegistry (.map sampleLayerProblem) (.text "layers") ?_
  rw [Workload.ofConfig, hproblem, ok_bind, Workload.readBounds, hlayer]
  dsimp only
  rw [if_neg hnamed, hlookup]
  rfl

theorem isMade_sampleTextHierarchy : sampleTextHierarchy.IsMade := by
  refine .ofLevels sampleTextHierarchy.levels (.text "no") ?_ rfl
  refine List.forall_mem_cons.mpr ⟨?_, List.forall_mem_singleton.mpr ?_⟩
  · exact .ofArguments (.map [(.text "name", .text "Array"), (.text "spatial", .text "yes"),
      (.text "factors", .map [(.text " k", .int 2)]), (.text "permutation", .text "kp"),
      (.text "split", .int 5)]) rfl
  · exact .ofArguments (.map [(.text "name", .text "Main"), (.text "spatial", .text "")]) rfl

theorem build_reloaded_sample : ∃ config w' h' m m',
    sampleLayerWorkload.IsMade ∧ sampleTextHierarchy.IsMade ∧
      sampleLayerWorkload.toConfig = .ok config ∧
      Workload.ofConfig .packaged config (.text "file") = .ok w' ∧
      Hierarchy.ofConfig sampleTextHierarchy.toConfig = .ok h' ∧
      build sampleLayerWorkload sampleTextHierarchy = .ok m ∧ build w' h' = .ok m' ∧
      m.size = 768 ∧ m'.sizes = m.sizes ∧ m'.pruned = m.pruned ∧
      ∀ i : ℕ, i < 768 → ∃ mapping saved, m.decode (.int i) = .ok mapping ∧
        m'.decode (.int i) = .ok mapping ∧ mapping.toConfig = .ok saved := by
  obtain ⟨config, hc⟩ : ∃ config, sampleLayerWorkload.toConfig = .ok config := ⟨_, rfl⟩
  obtain ⟨w', h', hw', hh', hiff, hsame⟩ := build_reloaded .packaged isMade_sampleLayerWorkload
    isMade_sampleTextHierarchy hc (.text "file")
  obtain ⟨m, hm, hsize⟩ := exists_build (w := sampleLayerWorkload) (h := sampleTextHierarchy)
    (n := 768) (by decide +kernel)
  obtain ⟨m', hm'⟩ := hiff.mp ⟨m, hm⟩
  obtain ⟨-, -, -, hsizes, hpruned, -, hdecode⟩ := hsame m m' hm hm'
  exact ⟨config, w', h', m, m', isMade_sampleLayerWorkload, isMade_sampleTextHierarchy, hc, hw', hh',
    hm, hm', hsize, hsizes, hpruned, fun i hi => hdecode i (by rwa [hsize])⟩

end MapSpace

end LoopTiling
