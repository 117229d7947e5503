import LoopTiling.Proofs.Mapping
import LoopTiling.Proofs.Pins
import LoopTiling.Proofs.Validity

/-!
# Configurations read back

The configuration that a workload, a level or a hierarchy writes is accepted again. A workload comes
back with its name and its bounds, a level with everything but the form of its truth value, and a
hierarchy with its levels, whatever readers they were made by.
-/
namespace LoopTiling

section Fields

variable {name key : String} {v : Value} {es fs : List (Value × Value)}

theorem Value.field?_cons_self : field? name ((text name, v) :: es) = some v := by
  have hsame : (text name).same (text name) = true := by simp [same]
  rw [field?, find?, if_pos hsame]

theorem Value.field?_cons_of_ne (h : key ≠ name) :
    field? name ((text key, v) :: es) = field? name es := by
  rw [field?, find?, if_neg (by simpa [same] using h), ← field?]

theorem Value.field?_append :
    field? name (es ++ fs) = (field? name es).or (field? name fs) := by
  induction es with
  | nil => rfl
  | cons e es ih =>
    simp only [field?] at ih ⊢
    rw [List.cons_append, find?, find?]
    split
    · rfl
    · exact ih

end Fields

namespace Level

variable {l : Level}

/-- Whether a level pins what its configuration can hold. -/
structure Storable (l : Level) : Prop extends l.Valid where
  dims_nodup : (l.factors.map Prod.fst).Nodup

theorem map_fst_of_checkFactor {name : Value} {named : List (Dim × Value)}
    {factors : List (Dim × Numeral)}
    (h : List.Forall₂ (fun e p => checkFactor name e = .ok p) named factors) :
    factors.map Prod.fst = named.map Prod.fst := by
  induction h with
  | nil => rfl
  | cons hep _ ih => rw [List.map_cons, List.map_cons, (numeral?_of_checkFactor hep).1, ih]

theorem storable_of_ofParts {name spatial factors lead split : Value}
    (hl : ofParts name spatial factors lead split = .ok l) : l.Storable := by
  refine ⟨valid_of_ofParts hl, ?_⟩
  simp only [ofParts, bind_eq_ok, dimFactors_eq, map_eq_ok, mapM_eq_ok, refuse_eq_ok,
    pure_eq_ok] at hl
  obtain ⟨_, -, _, ⟨named, -, rfl⟩, factors, hfactors, _, -, -, _, -, rfl⟩ := hl
  rw [map_fst_of_checkFactor hfactors]
  exact nodup_foldl_setKey named List.nodup_nil

theorem storable_of_ofArguments {arguments : Value} (hl : ofArguments arguments = .ok l) :
    l.Storable := by
  simp only [ofArguments, bind_eq_ok, refuse_eq_ok] at hl
  obtain ⟨es, -, -, hl⟩ := hl
  split at hl
  · cases hl
  · exact storable_of_ofParts hl

theorem storable_of_ofConfig {config : Value} (hl : ofConfig config = .ok l) : l.Storable := by
  simp only [ofConfig, bind_eq_ok] at hl
  obtain ⟨_, -, _, -, _, -, hl⟩ := hl
  exact storable_of_ofParts hl

/-- How a level comes about: from arguments or from a configuration. -/
inductive IsMade (l : Level) : Prop
  | ofArguments (arguments : Value) (hl : Level.ofArguments arguments = .ok l) : IsMade l
  | ofConfig (config : Value) (hl : Level.ofConfig config = .ok l) : IsMade l

theorem IsMade.storable (hl : l.IsMade) : l.Storable := by
  cases hl with
  | ofArguments arguments hl => exact storable_of_ofArguments hl
  | ofConfig config hl => exact storable_of_ofConfig hl

def configFields (l : Level) : List (Value × Value) :=
  [(.text "name", l.name), (.text "spatial", l.spatial)] ++
    (if l.factors.isEmpty then [] else [(.text "factors", l.factorMap)]) ++
    (if l.lead.isEmpty then []
      else [(.text "permutation", .list (l.lead.map fun d => .text d.name))]) ++
    match l.split with
    | some split => [(.text "split", split.toValue)]
    | none => []

theorem field?_configFields (l : Level) :
    Value.field? "name" l.configFields = some l.name ∧
      Value.field? "spatial" l.configFields = some l.spatial ∧
      Value.field? "factors" l.configFields =
        (if l.factors.isEmpty then none else some l.factorMap) ∧
      Value.field? "permutation" l.configFields =
        (if l.lead.isEmpty then none else some (.list (l.lead.map fun d => .text d.name))) ∧
      Value.field? "split" l.configFields = l.split.map Numeral.toValue := by
  have hnil (name : String) : Value.field? name [] = none := rfl
  rw [configFields]
  cases l.split <;> by_cases hf : l.factors.isEmpty <;> by_cases hl : l.lead.isEmpty <;>
    simp [hf, hl, hnil, Value.field?_cons_self, Value.field?_cons_of_ne]

theorem mapM_checkFactor_toValue {name : Value} {factors : List (Dim × Numeral)}
    (hpos : ∀ p ∈ factors, 0 < p.2.toInt) :
    (factors.map fun p => (p.1, p.2.toValue)).mapM (checkFactor name) = .ok factors := by
  rw [mapM_eq_ok, List.forall₂_map_left_iff, List.forall₂_same]
  intro p hp
  have hnot : ¬ p.2.toInt < 1 := by
    have := hpos p hp
    omega
  simp only [checkFactor, Value.numeral?_toValue, if_neg hnot]

theorem dimFactors_names {factors : List (Dim × Numeral)} (hd : (factors.map Prod.fst).Nodup) :
    dimFactors (factors.map fun p => (.text p.1.name, p.2.toValue)) =
      .ok (factors.map fun p => (p.1, p.2.toValue)) := by
  have hentries : dimEntries (factors.map fun p => (.text p.1.name, p.2.toValue)) =
      .ok (factors.map fun p => (p.1, p.2.toValue)) := by
    rw [dimEntries, mapM_eq_ok, List.forall₂_map_left_iff, List.forall₂_map_right_iff,
      List.forall₂_same]
    intro p _
    rw [Value.asDim_name]
    rfl
  rw [dimFactors_eq, hentries]
  refine congrArg Except.ok (foldl_setKey_of_nodup ?_)
  rw [List.nil_append, List.map_map]
  exact hd

theorem checkSplit_toValue {name spatial : Value} {split : Option Numeral}
    (hsplit : ∀ n, split = some n → spatial.truthy ∧ 0 ≤ n.toInt ∧ n.toInt ≤ Dim.count) :
    checkSplit name spatial ((split.map Numeral.toValue).getD .null) = .ok split := by
  cases split with
  | none => rfl
  | some n =>
    obtain ⟨hspatial, hnonneg, hle⟩ := hsplit n rfl
    have hnull : n.toValue.isNull = false := by cases n <;> rfl
    have hnot : ¬ (n.toInt < 0 ∨ Dim.count < n.toInt) := by omega
    simp only [checkSplit, Option.map_some, Option.getD_some, hnull, hspatial,
      Value.numeral?_toValue, if_neg hnot]
    rfl

/-- A level whose truth value has the plain form. -/
def plain (l : Level) : Level := { l with spatial := .flag l.isSpatial }

theorem ofParts_toValue (hl : l.Storable) : ofParts l.name (.flag l.isSpatial)
    (.map (l.factors.map fun p => (.text p.1.name, p.2.toValue)))
    (.list (l.lead.map fun d => .text d.name)) ((l.split.map Numeral.toValue).getD .null) =
      .ok l.plain := by
  have hlead : (Value.list (l.lead.map fun d => .text d.name)).asDims = .ok l.lead := by
    rw [Value.asDims, Value.items, ok_bind, mapM_eq_ok, List.forall₂_map_left_iff,
      List.forall₂_same]
    exact fun d _ => Value.asDim_name d
  have hsplit : checkSplit l.name (.flag l.isSpatial) ((l.split.map Numeral.toValue).getD .null) =
      .ok l.split := checkSplit_toValue hl.split
  rw [ofParts, Value.entries, ok_bind, dimFactors_names hl.dims_nodup, ok_bind,
    mapM_checkFactor_toValue hl.factor_pos, ok_bind, hlead, ok_bind, if_neg (not_not.mpr hl.lead_nodup),
    hsplit]
  rfl

/-- The configuration of a level is read back as the level. -/
theorem ofConfig_toConfig (hl : l.Storable) : ofConfig l.toConfig = .ok l.plain := by
  obtain ⟨hname, hspatial, hfactors, hlead, hsplit⟩ := l.field?_configFields
  have hread : (orElse (Value.fieldD "factors" l.configFields .null) (.map [])).toMap =
      .ok (l.factors.map fun p => (.text p.1.name, p.2.toValue)) := by
    rw [Value.fieldD, hfactors, factorMap]
    cases l.factors <;> rfl
  have hitems : (orElse (Value.fieldD "permutation" l.configFields .null) (.list [])).items =
      .ok (l.lead.map fun d => .text d.name) := by
    rw [Value.fieldD, hlead]
    cases l.lead <;> rfl
  have hentries : l.toConfig.entries = .ok l.configFields := rfl
  rw [ofConfig, hentries, ok_bind, hread, ok_bind, hitems, ok_bind, Value.fieldD, hname,
    Value.fieldD, hspatial, Value.fieldD, hsplit]
  exact ofParts_toValue hl

end Level

namespace Hierarchy

variable {h : Hierarchy}

/-- Whether a hierarchy has levels that can be written, under names that can be told apart. -/
structure Storable (h : Hierarchy) : Prop extends h.Valid where
  dims_nodup : ∀ l ∈ h.levels, (l.factors.map Prod.fst).Nodup
  names : checkNames [] h.names = .ok ()

theorem Storable.level (hh : h.Storable) {l : Level} (hl : l ∈ h.levels) : l.Storable :=
  ⟨hh.levels l hl, hh.dims_nodup l hl⟩

theorem storable_of_ofLevels {levels : List Level} {prune : Value}
    (hlevels : ∀ l ∈ levels, l.Storable) (hh : ofLevels levels prune = .ok h) : h.Storable := by
  have hvalid : h.Valid := valid_of_ofLevels (fun l hl => (hlevels l hl).toValid) hh
  simp only [ofLevels, bind_eq_ok, refuse_eq_ok, pure_eq_ok] at hh
  obtain ⟨-, _, hnames, rfl⟩ := hh
  exact ⟨hvalid, fun l hl => (hlevels l hl).dims_nodup, hnames⟩

theorem storable_of_ofConfig {config : Value} (hh : ofConfig config = .ok h) : h.Storable := by
  simp only [ofConfig, bind_eq_ok] at hh
  obtain ⟨_, -, _, -, hh⟩ := hh
  split at hh
  · obtain ⟨levels, hlevels, hh⟩ := bind_eq_ok.mp hh
    refine storable_of_ofLevels (fun l hl => ?_) hh
    obtain ⟨config, -, hconfig⟩ := exists_of_forall₂ (mapM_eq_ok.mp hlevels).flip hl
    exact Level.storable_of_ofConfig hconfig
  · cases hh

/-- The levels that stand where none are given are made from their names, one of them as spatial. -/
theorem isMade_of_mem_defaultLevels {l : Level} (hl : l ∈ defaultLevels) : l.IsMade := by
  simp only [defaultLevels, List.mem_cons, List.not_mem_nil, or_false] at hl
  rcases hl with rfl | rfl | rfl | rfl
  · exact .ofArguments (.map [(.text "name", .text "RegisterFile")]) rfl
  · exact .ofArguments (.map [(.text "name", .text "PEArray"), (.text "spatial", .flag true)]) rfl
  · exact .ofArguments (.map [(.text "name", .text "GlobalBuffer")]) rfl
  · exact .ofArguments (.map [(.text "name", .text "DRAM")]) rfl

/-- How a hierarchy comes about: from levels that were made before or from those that stand where none
are given, with a truth value of any form, or from a configuration. -/
inductive IsMade (h : Hierarchy) : Prop
  | ofLevels (levels : List Level) (prune : Value) (hlevels : ∀ l ∈ levels, l.IsMade)
      (hh : Hierarchy.ofLevels levels prune = .ok h) : IsMade h
  | ofDefault (prune : Value) (hh : Hierarchy.ofLevels defaultLevels prune = .ok h) : IsMade h
  | ofConfig (config : Value) (hh : Hierarchy.ofConfig config = .ok h) : IsMade h

theorem IsMade.storable (hh : h.IsMade) : h.Storable := by
  cases hh with
  | ofLevels levels prune hlevels hh =>
    exact storable_of_ofLevels (fun l hl => (hlevels l hl).storable) hh
  | ofDefault prune hh =>
    exact storable_of_ofLevels (fun l hl => (isMade_of_mem_defaultLevels hl).storable) hh
  | ofConfig config hh => exact storable_of_ofConfig hh

/-- A hierarchy whose truth values have the plain form. -/
def plain (h : Hierarchy) : Hierarchy := ⟨h.levels.map Level.plain, .flag h.prunes⟩

theorem names_plain : h.plain.names = h.names := by
  rw [names, names, plain, List.map_map]
  rfl

/-- The configuration of a hierarchy is read back as the hierarchy. -/
theorem ofConfig_toConfig (hh : h.Storable) : ofConfig h.toConfig = .ok h.plain := by
  have hlevels : (h.levels.map Level.toConfig).mapM Level.ofConfig =
      .ok (h.levels.map Level.plain) := by
    rw [mapM_eq_ok, List.forall₂_map_left_iff, List.forall₂_map_right_iff, List.forall₂_same]
    exact fun l hl => Level.ofConfig_toConfig (hh.level hl)
  have hsection : sectionOf h.toConfig ["mapspace", "architecture"] =
      .ok (.map [(.text "prune_unit_dimensions", h.prune),
        (.text "levels", .list (h.levels.map Level.toConfig))]) := rfl
  have hlist : Value.fieldD "levels" [(.text "prune_unit_dimensions", h.prune),
      (.text "levels", .list (h.levels.map Level.toConfig))] .null =
        .list (h.levels.map Level.toConfig) := rfl
  have hprune : Value.fieldD "prune_unit_dimensions" [(.text "prune_unit_dimensions", h.prune),
      (.text "levels", .list (h.levels.map Level.toConfig))] (.flag true) = h.prune := rfl
  have hne : ¬ (h.levels.map Level.plain).isEmpty := by
    simpa using hh.levels_ne_nil
  have hnames : checkNames [] ((h.levels.map Level.plain).map Level.name) = .ok () := by
    rw [← hh.names, ← names_plain]
    rfl
  rw [ofConfig, hsection, ok_bind, Value.entries, ok_bind, hlist]
  dsimp only
  rw [hlevels, ok_bind, hprune, ofLevels, if_neg hne, hnames]
  rfl

end Hierarchy

namespace Workload

variable {w : Workload}

def strideFields (wide high wideGap highGap : Value) : List (Value × Value) :=
  [(.text "Wstride", wide), (.text "Hstride", high)] ++
    [(.text "Wdilation", wideGap), (.text "Hdilation", highGap)]

def problemFields (w : Workload) (rest : List (Value × Value)) : List (Value × Value) :=
  (.text "name", w.name) :: ((Dim.all.map fun d => (.text d.name, .int (w.bounds.get d))) ++ rest)

theorem field?_dim (w : Workload) (rest : List (Value × Value)) (d : Dim) :
    Value.field? d.name (w.problemFields rest) = some (.int (w.bounds.get d)) := by
  have hname : "name" ≠ d.name := by cases d <;> decide
  have hbound : Value.field? d.name
      (Dim.all.map fun d => (.text d.name, .int (w.bounds.get d))) = some (.int (w.bounds.get d)) :=
    Value.find?_map_name (fun d => .int (w.bounds.get d)) d
  rw [problemFields, Value.field?_cons_of_ne hname, Value.field?_append, hbound, Option.some_or]

theorem field?_layer (w : Workload) (wide high wideGap highGap : Value) :
    Value.field? "layer" (w.problemFields (strideFields wide high wideGap highGap)) = none := by
  simp [problemFields, strideFields, Dim.all, Value.field?, Value.find?, Value.same, Dim.name,
    Dim.letter]

theorem checkBound_natCast {name : Value} {d : Dim} {n : ℕ} (hn : 0 < n) :
    checkBound name d (.int n) = .ok n := by
  have hnot : ¬ (n : ℤ) < 1 := by omega
  simp only [checkBound, Value.index?, if_neg hnot, Int.toNat_natCast]

theorem exists_of_toConfig_eq_ok {config : Value} (hc : w.toConfig = .ok config) :
    ∃ wide high wideGap highGap, config =
      .map [(.text "problem", .map (w.problemFields (strideFields wide high wideGap highGap)))] := by
  simp only [toConfig, partFields, bind_eq_ok, pure_eq_ok] at hc
  obtain ⟨_, ⟨wide, -, high, -, rfl⟩, _, ⟨wideGap, -, highGap, -, rfl⟩, rfl⟩ := hc
  exact ⟨wide, high, wideGap, highGap, by simp [problemFields, strideFields]⟩

variable [Text.DigitLimit]

/-- How a workload comes about: from arguments, from a configuration or from a named layer. -/
inductive IsMade (w : Workload) : Prop
  | ofArguments (arguments : Value) (hw : Workload.ofArguments arguments = .ok w) : IsMade w
  | ofConfig (g : Registry) (config path : Value) (hw : Workload.ofConfig g config path = .ok w) :
      IsMade w
  | ofLayer (g : Registry) (layer pad : Value) (hw : Workload.ofLayer g layer pad = .ok w) : IsMade w

theorem valid_of_ofConfig {g : Registry} {config path : Value} (hw : ofConfig g config path = .ok w) :
    w.Valid := by
  simp only [ofConfig, bind_eq_ok] at hw
  obtain ⟨_, -, _, -, hw⟩ := hw
  exact valid_of_ofParts hw

theorem IsMade.valid (hw : w.IsMade) : w.Valid := by
  cases hw with
  | ofArguments arguments hw =>
    simp only [Workload.ofArguments, bind_eq_ok, refuse_eq_ok] at hw
    obtain ⟨_, -, -, hw⟩ := hw
    exact valid_of_ofParts hw
  | ofConfig g config path hw => exact valid_of_ofConfig hw
  | ofLayer g layer pad hw => exact valid_of_ofConfig hw

/-- A problem with all bounds has those bounds, and no layer gives it a name. -/
theorem readBounds_problemFields (g : Registry) (w : Workload)
    (wide high wideGap highGap path : Value) :
    readBounds g (w.problemFields (strideFields wide high wideGap highGap)) path =
      .ok (.ofFn fun d => .int (w.bounds.get d), defaultName) := by
  have hdim (d : Dim) := w.field?_dim (strideFields wide high wideGap highGap) d
  have hlayer := w.field?_layer wide high wideGap highGap
  generalize w.problemFields (strideFields wide high wideGap highGap) = problem at *
  have hnull : (layerOf problem).1.isNull = true := by
    rw [layerOf, Value.fieldD, hlayer]
    rfl
  have hmissing : Dim.all.filter (fun d => (Value.field? d.name problem).isNone) = [] := by
    rw [List.filter_eq_nil_iff]
    intro d _
    rw [hdim]
    exact Bool.false_ne_true
  unfold readBounds
  dsimp only
  rw [if_pos hnull, hmissing]
  simp only [Value.fieldD, hdim]
  rfl

/-- The configuration of a workload, if there is one, is read back with the same name and the same
bounds. -/
theorem ofConfig_toConfig (g : Registry) (hw : w.Valid) {config : Value}
    (hc : w.toConfig = .ok config) (path : Value) :
    ∃ w', ofConfig g config path = .ok w' ∧ w'.name = w.name ∧ w'.bounds = w.bounds := by
  obtain ⟨wide, high, wideGap, highGap, rfl⟩ := exists_of_toConfig_eq_ok hc
  have hproblem : problemOf (.map [(.text "problem",
      .map (w.problemFields (strideFields wide high wideGap highGap)))]) path =
        .ok (w.problemFields (strideFields wide high wideGap highGap)) := rfl
  have hname : Value.fieldD "name" (w.problemFields (strideFields wide high wideGap highGap))
      defaultName = w.name := rfl
  have hbounds : PerDim.ofFnM (fun d => checkBound w.name d
      ((PerDim.ofFn fun d => Value.int (w.bounds.get d)).get d)) = .ok w.bounds := by
    rw [PerDim.ofFnM_eq_ok]
    intro d
    rw [PerDim.get_ofFn]
    exact checkBound_natCast (hw d)
  rw [ofConfig, hproblem, ok_bind, readBounds_problemFields, ok_bind]
  dsimp only
  rw [hname, ofParts, hbounds]
  exact ⟨_, rfl, rfl, rfl⟩

end Workload

end LoopTiling
