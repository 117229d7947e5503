import LoopTiling.Proofs.Associations
import LoopTiling.Proofs.Mapping
import LoopTiling.Proofs.MapSpace.Members
import LoopTiling.Proofs.State.Factors
import LoopTiling.Proofs.Validity

/-!
# From written pins to decoded factors

The pins of a level are written under keys that name dimensions in several ways. Of the entries for a
dimension only the last one is looked at: its value must be a positive numeral, and every decoded
mapping has it as the factor of the dimension at the level. So it is with the pins that a space of
factors is set up with. An entry that a later one for the same dimension follows may be anything.
-/
namespace LoopTiling

/-- Setting entries one after the other leaves the last one for each dimension. -/
theorem lookup_foldl_setKey (d : Dim) (named t : List (Dim × Value)) :
    (named.foldl (fun t e => setKey e.1 e.2 t) t).lookup d = (lastFor? d named).or (t.lookup d) := by
  induction named generalizing t with
  | nil => rfl
  | cons e named ih =>
    rw [List.foldl_cons, ih, lookup_setKey, lastFor?_cons, Option.or_assoc]
    congr 1
    split <;> rfl

theorem IsLastFor.unique {d : Dim} {es : List (Value × Value)} {v v' : Value}
    (h : IsLastFor d es v) (h' : IsLastFor d es v') : v = v' := by
  obtain ⟨before, key, after, rfl, hkey, hafter⟩ := h
  obtain ⟨before', key', after', he, hkey', hafter'⟩ := h'
  rcases List.append_eq_append_iff.mp he with ⟨middle, -, hsplit⟩ | ⟨middle, -, hsplit⟩
  · cases middle with
    | nil => exact (Prod.mk.inj (List.cons.inj hsplit).1).2
    | cons e middle =>
      obtain ⟨-, rfl⟩ := List.cons.inj hsplit
      exact absurd hkey' (hafter _ (List.mem_append_right _ List.mem_cons_self))
  · cases middle with
    | nil => exact (Prod.mk.inj (List.cons.inj hsplit).1).2.symm
    | cons e middle =>
      obtain ⟨-, rfl⟩ := List.cons.inj hsplit
      exact absurd hkey (hafter' _ (List.mem_append_right _ List.mem_cons_self))

namespace Level

theorem numeral?_of_checkFactor {name : Value} {e : Dim × Value} {p : Dim × Numeral}
    (h : checkFactor name e = .ok p) : p.1 = e.1 ∧ e.2.numeral? = some p.2 := by
  unfold checkFactor at h
  split at h
  · next n hn =>
    split at h
    · cases h
    · obtain rfl := Except.ok.inj h
      exact ⟨rfl, hn⟩
  · cases h

theorem lookup_of_checkFactor {name : Value} {named : List (Dim × Value)}
    {factors : List (Dim × Numeral)}
    (h : List.Forall₂ (fun e p => checkFactor name e = .ok p) named factors) {d : Dim} {v : Value}
    (hv : named.lookup d = some v) :
    ∃ n, v.numeral? = some n ∧ 0 < n.toInt ∧ factors.lookup d = some n := by
  induction h with
  | nil => cases hv
  | @cons e p named factors hep _ ih =>
    obtain ⟨hdim, hn⟩ := numeral?_of_checkFactor hep
    rw [List.lookup_cons] at hv ⊢
    rw [hdim]
    by_cases hd : (d == e.1) = true
    · rw [hd] at hv ⊢
      obtain rfl := Option.some.inj hv
      exact ⟨p.2, hn, pos_of_checkFactor hep, rfl⟩
    · rw [Bool.not_eq_true] at hd
      rw [hd] at hv ⊢
      exact ih hv

theorem dimFactors_eq (es : List (Value × Value)) :
    dimFactors es = (fun named => named.foldl (fun t e => setKey e.1 e.2 t) []) <$> dimEntries es := by
  unfold dimFactors dimEntries
  cases es.mapM fun e => (do return (← e.1.asDim, e.2) : Except Fault (Dim × Value)) <;> rfl

/-- The pin of a dimension is the last entry for it, which must be a positive numeral. -/
theorem factor?_of_ofParts {name spatial lead split : Value} {es : List (Value × Value)} {l : Level}
    (h : ofParts name spatial (.map es) lead split = .ok l) :
    (∀ e ∈ es, ∃ d, e.1.asDim = .ok d) ∧ ∀ d v, IsLastFor d es v →
      ∃ n, v.numeral? = some n ∧ 0 < n.toInt ∧ l.factor? d = some n := by
  simp only [ofParts, Value.entries, ok_bind, bind_eq_ok, dimFactors_eq, map_eq_ok, mapM_eq_ok,
    refuse_eq_ok, pure_eq_ok] at h
  obtain ⟨_, ⟨named, hnamed, rfl⟩, factors, hfactors, _, -, -, _, -, rfl⟩ := h
  have hentries := forall₂_of_dimEntries hnamed
  refine ⟨fun e he => ?_, fun d v hlast => ?_⟩
  · obtain ⟨n, -, hn, -⟩ := exists_of_forall₂ hentries he
    exact ⟨n.1, hn⟩
  · have hlookup : (named.foldl (fun t e => setKey e.1 e.2 t) []).lookup d = some v := by
      rw [lookup_foldl_setKey]
      rcases lastFor?_cases d hentries with ⟨v', hv', hlast'⟩ | ⟨-, hnone⟩
      · rw [hv', hlast.unique hlast', Option.some_or]
      · obtain ⟨before, key, after, rfl, hkey, -⟩ := hlast
        exact absurd hkey (hnone _ (List.mem_append_right before List.mem_cons_self))
    exact lookup_of_checkFactor hfactors hlookup

/-- The pins that the configuration of a level has, as they are written. -/
def writtenFactors (config : Value) : Except Fault (List (Value × Value)) := do
  let es ← config.entries
  (orElse (Value.fieldD "factors" es .null) (.map [])).toMap

theorem factor?_of_ofConfig {config : Value} {l : Level} (h : ofConfig config = .ok l) :
    ∃ es, writtenFactors config = .ok es ∧ (∀ e ∈ es, ∃ d, e.1.asDim = .ok d) ∧
      ∀ d v, IsLastFor d es v → ∃ n, v.numeral? = some n ∧ 0 < n.toInt ∧ l.factor? d = some n := by
  simp only [ofConfig, bind_eq_ok] at h
  obtain ⟨fields, hfields, es, hes, _, -, hparts⟩ := h
  refine ⟨es, ?_, factor?_of_ofParts hparts⟩
  rw [writtenFactors, hfields, ok_bind, hes]

end Level

namespace Hierarchy

/-- The configurations of the levels. -/
def levelConfigs (config : Value) : Except Fault (List Value) := do
  let es ← (← sectionOf config ["mapspace", "architecture"]).entries
  (Value.fieldD "levels" es .null).items

theorem levelConfigs_of_ofConfig {config : Value} {h : Hierarchy} (hh : ofConfig config = .ok h) :
    ∃ levels, levelConfigs config = .ok levels ∧
      List.Forall₂ (fun c l => Level.ofConfig c = .ok l) levels h.levels := by
  simp only [ofConfig, bind_eq_ok] at hh
  obtain ⟨inner, hinner, es, hes, hh⟩ := hh
  split at hh
  · next levels hlevels =>
    simp only [bind_eq_ok, mapM_eq_ok, ofLevels, refuse_eq_ok, pure_eq_ok] at hh
    obtain ⟨built, hbuilt, -, _, -, rfl⟩ := hh
    refine ⟨levels, ?_, hbuilt⟩
    simp only [levelConfigs, hinner, hes, ok_bind, hlevels]
    rfl
  · cases hh

end Hierarchy

namespace MapSpace

/-- The factor that a mapping records for a dimension at a level. -/
def recordedFactor (m : Mapping) (level : ℕ) (d : Dim) : Except Fault Value := do
  (← m.loopBounds.part (.int level)).part (.text d.name)

variable {w : Workload} {h : Hierarchy}

theorem recordedFactor_mappingOf (m : MapSpace) (place : ℕ) (a : Assignment) {level : ℕ}
    (hlevel : level < m.hierarchy.levelCount) (d : Dim) :
    recordedFactor (m.mappingOf place a) level d = .ok (.int ((a.factors.get d).getD level 1)) := by
  have hbounds : (m.mappingOf place a).loopBounds.part (.int level) =
      .ok (factorsOfLevel a.factors level) := by
    rw [mappingOf, Value.part, Value.lookup_int, Value.find?_map_range _ hlevel]
    rfl
  have hname : Value.lookup (.text d.name)
      (Dim.all.map fun d => (.text d.name, .int ((a.factors.get d).getD level 1))) =
        .ok (some (.int ((a.factors.get d).getD level 1))) :=
    congrArg Except.ok (Value.find?_map_name (fun d => .int ((a.factors.get d).getD level 1)) d)
  rw [recordedFactor, hbounds, ok_bind, factorsOfLevel, Value.part, hname]
  rfl

variable [Text.DigitLimit]

/-- Every mapping has the pinned factors. -/
theorem recordedFactor_of_pinned {m : MapSpace} (hm : build w h = .ok m) {level : ℕ}
    {l : Level} (hl : h.levels[level]? = some l) {d : Dim} {n : Numeral}
    (hn : l.factor? d = some n) {i : ℕ} (hi : i < m.size) :
    ∃ mapping, m.decode (.int i) = .ok mapping ∧
      recordedFactor mapping level d = .ok (.int n.toInt) := by
  obtain ⟨ha, rfl, -⟩ := build_eq_ok.mp hm
  obtain ⟨hlevel, rfl⟩ := List.getElem?_eq_some_iff.mp hl
  have htiles := ((bijOn_assignmentOf ha).mapsTo hi).factors d
  have hlen : level < ((assignmentOf w h i).factors.get d).length := htiles.length ▸ hlevel
  have hpin := (List.forall₂_iff_get.mp htiles.pinned).2 level hlevel hlen n hn
  refine ⟨_, decode_layout ha hi, ?_⟩
  rw [recordedFactor_mappingOf _ _ _ hlevel, List.getD_eq_getElem _ _ hlen]
  exact congrArg (fun n => Except.ok (Value.int n)) hpin

end MapSpace

/-- Of the pins that a space of factors is set up with, the last ones for a dimension show in every
member. -/
theorem FactorState.decode_of_pinned [Text.DigitLimit] {bounds levelCounts : Value}
    {pins : List (Value × Value)} {s s' : FactorState} {journal : Journal}
    (hpins : (Value.map pins).PinsDiffer)
    (hinit : init bounds levelCounts (.map pins) s = .ok journal s') {d : Dim}
    {levels : List (Value × Value)} (hlast : IsLastFor d pins (.map levels)) :
    ∀ e ∈ levels, ∃ level factor : ℕ, e.1.index? = some (level : ℤ) ∧
      e.2.index? = some (factor : ℤ) ∧ 0 < factor ∧ ∀ i < s'.size, ∃ rows,
        s'.decode (.int i) = .ok rows ∧ (rows.get d)[level]? = some factor := by
  intro e he
  obtain ⟨tables, htables, rfl⟩ := eq_ofTables_of_call_init ⟨bounds, levelCounts, .map pins⟩ hinit
  have hsound (d : Dim) := sound_of_readTables hpins htables d
  obtain ⟨_, _, ps, hread⟩ := ofValues_of_readTables htables
  obtain ⟨-, -, hgives, htable⟩ := hread d
  have hd : ps.get d = .map levels := by
    rcases hgives with hlast' | ⟨-, hnone⟩
    · exact hlast'.unique hlast
    · obtain ⟨before, key, after, rfl, hkey, -⟩ := hlast
      exact absurd hkey (hnone _ (List.mem_append_right before List.mem_cons_self))
  have hdiffer := keysDiffer_of_givesPins hpins hgives
  obtain ⟨-, -, -, es, hes, hall⟩ := FactorTable.sound_of_ofValues hdiffer htable
  have hes' : es = levels := by
    rw [hd] at hes
    rcases FactorTable.givenPins_eq_ok hes with heq | ⟨-, hnone⟩
    · exact (Value.map.inj heq).symm
    · exact absurd rfl (hnone levels)
  obtain ⟨p, hp, hpin⟩ := exists_of_forall₂ hall (hes' ▸ he)
  refine ⟨p.1, p.2, hpin.level, hpin.factor, (hsound d).pinsFit.pos p hp, fun i hi => ?_⟩
  refine ⟨_, decode_ofTables (fun d => (hsound d).size_pos) hi, ?_⟩
  have hrows := (FactorSpace.bijOn_rowsAt tables fun d => (hsound d).bijOn_row).mapsTo hi
  exact (hrows d).pinned p hp

namespace MapSpace

/-- In an accepted configuration every key of the pins of a level names a dimension, and the last entry
for a dimension is a positive numeral that every decoded mapping has at this level and dimension. The
pins that a space of factors is set up with show in the same way in all its members. -/
theorem last_pins_show [Text.DigitLimit] :
    (∀ {config : Value} {h : Hierarchy} {w : Workload} {m : MapSpace},
      Hierarchy.ofConfig config = .ok h → build w h = .ok m →
      ∃ levels, Hierarchy.levelConfigs config = .ok levels ∧ levels.length = h.levelCount ∧
        ∀ (level : ℕ) (hl : level < levels.length), ∃ es,
          Level.writtenFactors levels[level] = .ok es ∧ (∀ e ∈ es, ∃ d, e.1.asDim = .ok d) ∧
          ∀ d v, IsLastFor d es v → ∃ n, v.numeral? = some n ∧ 0 < n.toInt ∧
            ∀ i < m.size, ∃ mapping, m.decode (.int i) = .ok mapping ∧
              recordedFactor mapping level d = .ok (.int n.toInt)) ∧
    ∀ {bounds levelCounts : Value} {pins : List (Value × Value)} {s s' : FactorState}
      {journal : Journal}, (Value.map pins).PinsDiffer →
      FactorState.init bounds levelCounts (.map pins) s = .ok journal s' →
      ∀ d levels, IsLastFor d pins (.map levels) → ∀ e ∈ levels, ∃ level factor : ℕ,
        e.1.index? = some (level : ℤ) ∧ e.2.index? = some (factor : ℤ) ∧ 0 < factor ∧
          ∀ i < s'.size, ∃ rows, s'.decode (.int i) = .ok rows ∧
            (rows.get d)[level]? = some factor := by
  refine ⟨fun hh hm => ?_, fun hpins hinit d levels hlast =>
    FactorState.decode_of_pinned hpins hinit hlast⟩
  obtain ⟨levels, hlevels, hall⟩ := Hierarchy.levelConfigs_of_ofConfig hh
  refine ⟨levels, hlevels, hall.length_eq, fun level hl => ?_⟩
  have hl' := hall.length_eq ▸ hl
  obtain ⟨es, hes, hdims, hpins⟩ :=
    Level.factor?_of_ofConfig ((List.forall₂_iff_get.mp hall).2 level hl hl')
  refine ⟨es, hes, hdims, fun d v hlast => ?_⟩
  obtain ⟨n, hv, hpos, hn⟩ := hpins d v hlast
  exact ⟨n, hv, hpos, fun i hi =>
    recordedFactor_of_pinned hm (List.getElem?_eq_getElem hl') hn hi⟩

/-- Pins of a level in which two keys name the dimension C, the first of them with a value that is no
number. -/
def samplePins : List (Value × Value) :=
  [(.text "c", .text "two"), (.text " C", .int 4), (.int 5, .dim .p)]

def samplePinConfig : Value :=
  .map [(.text "levels", .list
    [.map [(.text "name", .text "A"), (.text "factors", .map samplePins)],
      .map [(.text "name", .text "B")]])]

def samplePinHierarchy : Hierarchy where
  levels := [{ name := .text "A", factors := [(.c, .plain 4), (.k, .dim .p)] },
    { name := .text "B" }]

def samplePinWorkload : Workload :=
  ⟨.text "sample", ⟨1, 1, 1, 1, 4, 6, 1⟩, Workload.unitPair, Workload.unitPair, .text "sample"⟩

theorem ofConfig_samplePinConfig : Hierarchy.ofConfig samplePinConfig = .ok samplePinHierarchy := by
  rfl

/-- Pins of the dimension C at two levels under two keys that name it. -/
def sampleLevelPins : List (Value × Value) :=
  [(.text "c", .map [(.int 0, .int 3)]), (.text "C", .map [(.int 1, .int 2)])]

def sampleLevelBounds : Value := .list ([1, 1, 1, 1, 12, 1, 1].map .int)

theorem pinsDiffer_sampleLevelPins : (Value.map sampleLevelPins).PinsDiffer := by
  rintro _ ⟨⟩
  simp only [sampleLevelPins, List.forall_mem_cons, List.not_mem_nil, false_implies, implies_true,
    and_true]
  refine ⟨?_, ?_⟩
  all_goals
    rintro _ ⟨⟩
    exact List.pairwise_singleton _ _

theorem exists_init_sampleLevelPins : ∃ journal s,
    FactorState.init sampleLevelBounds (.int 3) (.map sampleLevelPins) {} = .ok journal s ∧
      s.size = 4 ∧ (s.decode (.int 0)).toOption.map (fun rows => rows.c) = some [1, 2, 6] := by
  have hresult : (match FactorState.init sampleLevelBounds (.int 3) (.map sampleLevelPins) {} with
      | .ok _ s => some (s.size, (s.decode (.int 0)).toOption.map fun rows => rows.c)
      | .error _ _ => none) = some (4, some [1, 2, 6]) := by
    decide +kernel
  cases hinit : FactorState.init sampleLevelBounds (.int 3) (.map sampleLevelPins) {} with
  | error fault s =>
    rw [hinit] at hresult
    cases hresult
  | ok journal s =>
    rw [hinit] at hresult
    obtain ⟨hsize, hrow⟩ := Prod.mk.inj (Option.some.inj hresult)
    exact ⟨journal, s, rfl, hsize, hrow⟩

theorem last_pins_show_sample :
    (∃ m, Hierarchy.ofConfig samplePinConfig = .ok samplePinHierarchy ∧
      build samplePinWorkload samplePinHierarchy = .ok m ∧ 0 < m.size ∧
      ∃ n, (Value.int 4).numeral? = some n ∧ 0 < n.toInt ∧ ∀ i < m.size, ∃ mapping,
        m.decode (.int i) = .ok mapping ∧ recordedFactor mapping 0 .c = .ok (.int n.toInt)) ∧
    ∃ journal s, FactorState.init sampleLevelBounds (.int 3) (.map sampleLevelPins) {} =
        .ok journal s ∧ 0 < s.size ∧ ∃ level factor : ℕ,
      (Value.int 1).index? = some (level : ℤ) ∧ (Value.int 2).index? = some (factor : ℤ) ∧
        0 < factor ∧ ∀ i < s.size, ∃ rows, s.decode (.int i) = .ok rows ∧
          (rows.get .c)[level]? = some factor := by
  have hlast : IsLastFor .c samplePins (.int 4) := by
    refine ⟨[(.text "c", .text "two")], .text " C", [(.int 5, .dim .p)], rfl, rfl, ?_⟩
    exact List.forall_mem_singleton.mpr (by rintro ⟨⟩)
  have hlastLevels : IsLastFor .c sampleLevelPins (.map [(.int 1, .int 2)]) :=
    ⟨[(.text "c", .map [(.int 0, .int 3)])], .text "C", [], rfl, rfl, List.forall_mem_nil _⟩
  refine ⟨?_, ?_⟩
  · obtain ⟨m, hm, hsize⟩ := exists_build (w := samplePinWorkload) (h := samplePinHierarchy)
      (n := 4) (by decide +kernel)
    obtain ⟨levels, hlevels, -, hall⟩ := last_pins_show.1 ofConfig_samplePinConfig hm
    have hconfigs : Hierarchy.levelConfigs samplePinConfig = .ok
        [.map [(.text "name", .text "A"), (.text "factors", .map samplePins)],
          .map [(.text "name", .text "B")]] := by rfl
    obtain rfl := Except.ok.inj (hconfigs.symm.trans hlevels)
    obtain ⟨es, hes, -, hpins⟩ := hall 0 (Nat.zero_lt_succ _)
    obtain rfl : samplePins = es := Except.ok.inj hes
    exact ⟨m, ofConfig_samplePinConfig, hm, by omega, hpins .c (.int 4) hlast⟩
  · obtain ⟨journal, s, hinit, hsize, -⟩ := exists_init_sampleLevelPins
    exact ⟨journal, s, hinit, by omega, last_pins_show.2 pinsDiffer_sampleLevelPins hinit .c _
      hlastLevels (.int 1, .int 2) List.mem_cons_self⟩

/-- Entries that later ones for the same dimension follow are lost: the pin of C that is no number is
accepted and its factor is the later one, and the pin of C at level zero does not show. -/
theorem earlier_pins_lost :
    ((.text "c", .text "two") ∈ samplePins ∧ (Value.text "two").numeral? = none ∧
      Hierarchy.ofConfig samplePinConfig = .ok samplePinHierarchy ∧
      ∃ m mapping, build samplePinWorkload samplePinHierarchy = .ok m ∧
        m.decode (.int 0) = .ok mapping ∧ recordedFactor mapping 0 .c = .ok (.int 4)) ∧
    (.text "c", .map [(.int 0, .int 3)]) ∈ sampleLevelPins ∧
      ∃ journal s rows, FactorState.init sampleLevelBounds (.int 3) (.map sampleLevelPins) {} =
        .ok journal s ∧ s.decode (.int 0) = .ok rows ∧ rows.c = [1, 2, 6] := by
  refine ⟨⟨List.mem_cons_self, rfl, ofConfig_samplePinConfig, ?_⟩, List.mem_cons_self, ?_⟩
  · obtain ⟨m, hm, hsize⟩ := exists_build (w := samplePinWorkload) (h := samplePinHierarchy)
      (n := 4) (by decide +kernel)
    have hlevel : samplePinHierarchy.levels[0]? =
        some { name := .text "A", factors := [(.c, .plain 4), (.k, .dim .p)] } := rfl
    obtain ⟨mapping, hdecode, hfactor⟩ := recordedFactor_of_pinned hm hlevel (d := .c)
      (n := .plain 4) rfl (i := 0) (by omega)
    exact ⟨m, mapping, hm, hdecode, hfactor⟩
  · obtain ⟨journal, s, hinit, -, hrow⟩ := exists_init_sampleLevelPins
    obtain ⟨rows, hrows, hc⟩ := Option.map_eq_some_iff.mp hrow
    exact ⟨journal, s, rows, hinit, eq_ok_of_toOption hrows, hc⟩

end MapSpace

end LoopTiling
