import LoopTiling.Hierarchy
import LoopTiling.Proofs.Faults
import LoopTiling.Workload

/-!
# The form of configurations

The readers of layer tables, workloads and hierarchies check what a configuration says, but not that its
parts are maps, lists and names where these are needed. A configuration of the right form is read, or
refused with a fault that a command answers.
-/
namespace LoopTiling

/-- A table of layers can be asked for a section of layers. If it has one it is a map, the section is a map
of maps, and the section of composites, unless it counts as false, is a map whose keys and values can be
read as whole numbers. -/
def Registry.HasForm [Text.DigitLimit] (config : Value) : Prop :=
  ∃ present, config.has (.text "layers") = .ok present ∧ (present → ∃ es, config = .map es ∧
    (∃ ls, Value.fieldD "layers" es .null = .map ls ∧ ∀ e ∈ ls, ∃ ds, e.2 = .map ds) ∧
      ((Value.fieldD "nearest_composite" es .null).truthy →
        ∃ cs, Value.fieldD "nearest_composite" es .null = .map cs ∧
          ∀ e ∈ cs, (∃ n, e.1.toWhole = .ok n) ∧ ∃ n, e.2.toWhole = .ok n))

/-- A workload is a map, and the layer that its problem names may be a key. -/
def Workload.HasForm (config : Value) : Prop :=
  ∃ es, config = .map es ∧ ∀ problem, Value.fieldD "problem" es config = .map problem →
    (Value.fieldD "layer" problem .null).isKey

/-- A level is a map whose name may be a key, whose pins can be read as a map, and whose start of an
order can be read as a list. -/
def Level.HasForm (config : Value) : Prop :=
  ∃ es, config = .map es ∧ (Value.fieldD "name" es (.text "Unknown")).isKey ∧
    (∃ fs, (orElse (Value.fieldD "factors" es .null) (.map [])).toMap = .ok fs) ∧
    ∃ vs, (orElse (Value.fieldD "permutation" es .null) (.list [])).items = .ok vs

/-- A hierarchy is a map, or has it as one of its sections, and if it lists levels, all of them have the
form of a level. -/
def Hierarchy.HasForm (config : Value) : Prop :=
  ∃ es, sectionOf config ["mapspace", "architecture"] = .ok (.map es) ∧
    ∀ levels, Value.fieldD "levels" es .null = .list levels → ∀ l ∈ levels, Level.HasForm l

theorem Level.isKey_of_ofConfig {config : Value} (h : HasForm config) {l : Level}
    (hl : ofConfig config = .ok l) : l.name.isKey := by
  obtain ⟨es, rfl, hname, ⟨fs, hfs⟩, vs, hvs⟩ := h
  rw [ofConfig, Value.entries, ok_bind, hfs, ok_bind, hvs, ok_bind] at hl
  simp only [ofParts, bind_eq_ok, refuse_eq_ok, pure_eq_ok] at hl
  obtain ⟨_, -, _, -, _, -, _, -, -, _, -, rfl⟩ := hl
  exact hname

variable [Text.DigitLimit]

theorem failsOnly_asDim (v : Value) : FailsOnly Fault.Answerable v.asDim := by
  unfold Value.asDim
  split
  · exact failsOnly_ok _
  · split
    · exact failsOnly_ok _
    · exact failsOnly_refusal rfl
  · split
    · exact failsOnly_ok _
    · exact failsOnly_refusal rfl
  · exact failsOnly_refusal rfl

namespace Level

theorem failsOnly_dimFactors (es : List (Value × Value)) :
    FailsOnly Fault.Answerable (dimFactors es) :=
  (FailsOnly.mapM fun e _ => (failsOnly_asDim e.1).bind fun _ _ => failsOnly_ok _).bind
    fun _ _ => failsOnly_ok _

theorem failsOnly_checkFactor (name : Value) (e : Dim × Value) :
    FailsOnly Fault.Answerable (checkFactor name e) := by
  unfold checkFactor
  split
  · exact FailsOnly.ite (fun _ => failsOnly_refusal rfl) fun _ => failsOnly_ok _
  · exact failsOnly_refusal rfl

theorem failsOnly_checkSplit (name spatial split : Value) :
    FailsOnly Fault.Answerable (checkSplit name spatial split) := by
  unfold checkSplit
  refine FailsOnly.ite (fun _ => failsOnly_ok _) fun _ =>
    FailsOnly.ite (fun _ => failsOnly_refusal rfl) fun _ => ?_
  split
  · exact FailsOnly.ite (fun _ => failsOnly_refusal rfl) fun _ => failsOnly_ok _
  · exact failsOnly_refusal rfl

theorem failsOnly_ofParts (name spatial split : Value) (fs : List (Value × Value)) (vs : List Value) :
    FailsOnly Fault.Answerable (ofParts name spatial (.map fs) (.list vs) split) :=
  (failsOnly_ok fs).bind fun _ _ => (failsOnly_dimFactors _).bind fun _ _ =>
    (FailsOnly.mapM fun e _ => failsOnly_checkFactor name e).bind fun _ _ =>
      ((failsOnly_ok vs).bind fun _ _ => FailsOnly.mapM fun v _ => failsOnly_asDim v).bind fun _ _ =>
        FailsOnly.refuse (.inl rfl) fun _ =>
          (failsOnly_checkSplit name spatial split).bind fun _ _ => failsOnly_ok _

theorem failsOnly_ofConfig {config : Value} (h : HasForm config) :
    FailsOnly Fault.Answerable (ofConfig config) := by
  obtain ⟨es, rfl, -, ⟨fs, hfs⟩, vs, hvs⟩ := h
  rw [ofConfig, Value.entries, ok_bind, hfs, ok_bind, hvs, ok_bind]
  exact failsOnly_ofParts _ _ _ _ _

end Level

namespace Hierarchy

theorem failsOnly_checkNames {names : List Value} (h : ∀ n ∈ names, n.isKey) (seen : List Value) :
    FailsOnly Fault.Answerable (checkNames seen names) := by
  induction names generalizing seen with
  | nil => exact failsOnly_ok _
  | cons name names ih =>
    rw [List.forall_mem_cons] at h
    rw [checkNames, h.1, if_neg (by decide)]
    exact FailsOnly.ite (fun _ => failsOnly_refusal rfl) fun _ => ih h.2 _

theorem failsOnly_ofConfig {config : Value} (h : HasForm config) :
    FailsOnly Fault.Answerable (ofConfig config) := by
  obtain ⟨es, hes, hlevels⟩ := h
  rw [ofConfig, hes, ok_bind, Value.entries, ok_bind]
  split
  · next levels hlist =>
    refine (FailsOnly.mapM fun l hl => Level.failsOnly_ofConfig (hlevels levels hlist l hl)).bind
      fun ls hls => FailsOnly.refuse (.inl rfl) fun _ => (failsOnly_checkNames ?_ []).bind
        fun _ _ => failsOnly_ok _
    intro n hn
    obtain ⟨l, hl, rfl⟩ := List.mem_map.mp hn
    obtain ⟨c, hc, hcl⟩ := exists_of_forall₂ (mapM_eq_ok.mp hls).flip hl
    exact Level.isKey_of_ofConfig (hlevels levels hlist c hc) hcl
  · exact failsOnly_refusal rfl

end Hierarchy

namespace Registry

theorem failsOnly_readBound (layer : String) (e : Value × Value) :
    FailsOnly Fault.Answerable (readBound layer e) := by
  refine (failsOnly_asDim e.1).bind fun d _ => ?_
  split
  · exact FailsOnly.ite (fun _ => failsOnly_refusal rfl) fun _ => failsOnly_ok _
  · exact failsOnly_refusal rfl

theorem failsOnly_readLayer {e : Value × Value} {ds : List (Value × Value)} (h : e.2 = .map ds) :
    FailsOnly Fault.Answerable (readLayer e) := by
  refine (failsOnly_text e.1).answerable.bind fun name _ => FailsOnly.bind ?_ fun _ _ =>
    failsOnly_ok _
  rw [readBounds, h, Value.entries, ok_bind]
  exact (FailsOnly.mapM fun e _ => failsOnly_readBound name e).bind fun _ _ =>
    FailsOnly.refuse (.inl rfl) fun _ => failsOnly_ok _

theorem failsOnly_readComposite {e : Value × Value} (h : (∃ n, e.1.toWhole = .ok n) ∧
    ∃ n, e.2.toWhole = .ok n) : FailsOnly Fault.Answerable (readComposite e) := by
  obtain ⟨⟨n, hn⟩, k, hk⟩ := h
  rw [readComposite, hn, ok_bind, hk]
  exact failsOnly_ok _

theorem failsOnly_ofTables {ls : List (Value × Value)} {composites : Value}
    (hls : ∀ e ∈ ls, ∃ ds, e.2 = .map ds)
    (hcomposites : composites.truthy → ∃ cs, composites = .map cs ∧
      ∀ e ∈ cs, (∃ n, e.1.toWhole = .ok n) ∧ ∃ n, e.2.toWhole = .ok n) :
    FailsOnly Fault.Answerable (ofTables (.map ls) composites) := by
  rw [ofTables, Value.entries, ok_bind]
  refine (FailsOnly.mapM fun e he => ?_).bind fun named _ => ?_
  · obtain ⟨ds, hds⟩ := hls e he
    exact failsOnly_readLayer hds
  · refine FailsOnly.ite (fun htruthy => ?_) fun _ => failsOnly_ok _
    obtain ⟨cs, rfl, hcs⟩ := hcomposites htruthy
    rw [Value.entries, ok_bind]
    exact (FailsOnly.mapM fun e he => failsOnly_readComposite (hcs e he)).bind fun _ _ =>
      failsOnly_ok _

theorem failsOnly_ofConfig {config : Value} (h : HasForm config) :
    FailsOnly Fault.Answerable (ofConfig config) := by
  obtain ⟨present, hhas, hsection⟩ := h
  unfold ofConfig
  rw [hhas, ok_bind]
  refine FailsOnly.refuse (.inl rfl) fun hpresent => ?_
  rw [Bool.not_eq_true', Bool.not_eq_false] at hpresent
  obtain ⟨es, rfl, ⟨ls, hls, heach⟩, hcomposites⟩ := hsection hpresent
  simp only [hls]
  exact failsOnly_ofTables heach hcomposites

/-- A rounding that cannot be reported shows a number with too many digits. -/
theorem failsOnly_rounding {g : Registry} {name : Value} {bound : Dim × Numeral}
    {x : Except Fault Record} (h : g.rounding? name bound = some x) : FailsOnly Fault.OfLimit x := by
  obtain ⟨c, -, rfl⟩ := Option.map_eq_some_iff.mp h
  exact (failsOnly_text name).bind fun _ _ => (failsOnly_numeral bound.2).bind fun _ _ =>
    (failsOnly_decimal c).bind fun _ _ => failsOnly_ok _

theorem failsOnly_lookup (g : Registry) {name : Value} (hname : name.isKey) (pad : Value) :
    FailsOnly Fault.Answerable (g.lookup name pad) := by
  have hbounds : FailsOnly Fault.Answerable (g.bounds name) := by
    refine FailsOnly.bind ?_ fun found _ => ?_
    · unfold find?
      rw [hname, if_neg (by decide)]
      split <;> exact failsOnly_ok _
    · cases found with
      | some bounds => exact failsOnly_ok _
      | none => exact failsOnly_refusal rfl
  refine hbounds.bind fun bounds _ => FailsOnly.bind (FailsOnly.answerable ?_) fun _ _ => failsOnly_ok _
  refine FailsOnly.mapM fun x hx => ?_
  rw [roundingsOf] at hx
  split at hx
  · obtain ⟨e, -, he⟩ := List.mem_filterMap.mp hx
    exact failsOnly_rounding he
  · cases hx

end Registry

namespace Workload

theorem failsOnly_checkBound (name : Value) (d : Dim) (v : Value) :
    FailsOnly Fault.Answerable (checkBound name d v) := by
  unfold checkBound
  split
  · exact failsOnly_refusal rfl
  · split
    · exact FailsOnly.ite (fun _ => failsOnly_refusal rfl) fun _ => failsOnly_ok _
    · exact failsOnly_refusal rfl

theorem failsOnly_ofParts (name stride dilation path : Value) (bounds : PerDim Value) :
    FailsOnly Fault.Answerable (ofParts name bounds stride dilation path) :=
  (FailsOnly.ofFnM fun d => failsOnly_checkBound name d _).bind fun _ _ => failsOnly_ok _

theorem failsOnly_readBounds {problem : List (Value × Value)}
    (h : (Value.fieldD "layer" problem .null).isKey) (g : Registry) (path : Value) :
    FailsOnly Fault.Answerable (readBounds g problem path) := by
  unfold readBounds
  refine FailsOnly.ite (fun _ => FailsOnly.refuse (.inl rfl) fun _ => failsOnly_ok _) fun _ => ?_
  exact (g.failsOnly_lookup h _).bind fun _ _ => failsOnly_ok _

theorem failsOnly_ofConfig {config : Value} (h : HasForm config) (g : Registry) (path : Value) :
    FailsOnly Fault.Answerable (ofConfig g config path) := by
  obtain ⟨es, rfl, hlayer⟩ := h
  rw [ofConfig, problemOf, Value.entries, ok_bind]
  cases hproblem : Value.fieldD "problem" es (.map es) with
  | map problem =>
    exact (failsOnly_readBounds (hlayer problem hproblem) g path).bind fun _ _ =>
      failsOnly_ofParts _ _ _ _ _
  | _ => exact failsOnly_refusal rfl

end Workload

end LoopTiling
