import LoopTiling.Proofs.Command.Tasks

/-!
# What loading comes to

Loading a registry, a workload and a hierarchy, and building the mapspace of the last two, only report:
what they come to is given by the readers and by the construction alone.
-/
namespace LoopTiling

theorem Registry.debug_of_mem_shownRecords {outcomes : List (Except Fault Record)} {r : Record}
    (hr : r ∈ shownRecords outcomes) : .ok r ∈ outcomes := by
  induction outcomes with
  | nil => cases hr
  | cons x outcomes ih =>
    cases x with
    | error fault => cases hr
    | ok r' =>
      rcases List.mem_cons.mp hr with rfl | hr
      · exact List.mem_cons_self
      · exact List.mem_cons_of_mem _ (ih hr)

namespace Command

theorem calm_journalOf {reported : Except Fault Journal}
    (h : ∀ journal, reported = .ok journal → Calm journal) : Calm (journalOf reported) := by
  cases reported with
  | error fault => exact calm_nil
  | ok journal => exact h journal rfl

theorem calm_reported_factors (s : FactorSpace) : Calm s.reported := by
  rw [FactorSpace.reported]
  split
  · exact calm_nil
  · refine List.forall_mem_cons.mpr ⟨nofun, fun r hr => ?_⟩
    obtain ⟨d, -, rfl⟩ := List.mem_map.mp hr
    exact nofun

/-- The hierarchy of a file, or the common one. -/
def hierarchyOf (env : Environment) : Option String → Except Fault Hierarchy
  | none => .ok .default
  | some path => do Hierarchy.ofConfig (← env.files.load .levelFile path)

theorem reports_loadHierarchy (env : Environment) (arch : Option String) :
    (loadHierarchy env arch).Reports (hierarchyOf env arch) := by
  cases arch with
  | none => exact Task.reports_pure _
  | some path => exact Task.reports_check_note fun h => by simp [Calm, Hierarchy.loaded]

section Limited

variable [Text.DigitLimit]

theorem calm_roundings (g : Registry) (name pad : Value) : Calm (g.roundings name pad) := by
  intro r hr
  rw [Registry.roundings] at hr
  split at hr
  · cases hr
  · have hmem := Registry.debug_of_mem_shownRecords hr
    rw [Registry.roundingsOf] at hmem
    split at hmem
    · obtain ⟨e, -, he⟩ := List.mem_filterMap.mp hmem
      obtain ⟨c, -, hc⟩ := Option.map_eq_some_iff.mp he
      simp only [bind_eq_ok, pure_eq_ok] at hc
      obtain ⟨_, -, _, -, _, -, rfl⟩ := hc
      simp
    · cases hmem

theorem calm_reported_workload (g : Registry) (config path : Value) :
    Calm (Workload.reported g config path) := by
  rw [Workload.reported]
  split
  · exact calm_nil
  · dsimp only
    split
    · exact calm_nil
    · exact calm_roundings _ _ _

theorem calm_reported_order (level : Numeral) (p : OrderPattern) :
    Calm (journalOf (p.reported level)) := by
  refine calm_journalOf fun journal h => ?_
  simp only [OrderPattern.reported, bind_eq_ok, pure_eq_ok] at h
  obtain ⟨_, -, rfl⟩ := h
  simp [Calm]

theorem calm_reported_split (level : Numeral) (rule : SplitRule) :
    Calm (journalOf (rule.reported level)) := by
  refine calm_journalOf fun journal h => ?_
  cases rule <;>
    · simp only [SplitRule.reported, bind_eq_ok, pure_eq_ok] at h
      obtain ⟨_, -, _, -, rfl⟩ := h
      simp [Calm]

theorem calm_reported_mapSpace (m : MapSpace) : Calm m.reported := by
  rw [MapSpace.reported, MapSpace.setupReported]
  refine (((calm_reported_factors _).append fun r hr => ?_).append fun r hr => ?_).append ?_
  · obtain ⟨e, -, hr⟩ := List.mem_flatMap.mp hr
    exact calm_reported_order e.1 e.2 r hr
  · obtain ⟨e, -, hr⟩ := List.mem_flatMap.mp hr
    exact calm_reported_split e.1 e.2 r hr
  · split
    · simp [Calm]
    · exact calm_nil

/-- The registry of a file, or the common one. -/
def registryOf (env : Environment) : Option String → Except Fault Registry
  | none => .ok .packaged
  | some path => do Registry.ofConfig (← env.files.load .layerFile path)

/-- The workload of a file, or that of a named layer where there is no such file. -/
def workloadOf (env : Environment) (g : Registry) (problem : Problem) : Except Fault Workload := do
  if ← env.files.isThere problem.workload then
    Workload.ofConfig g (← env.files.load .workloadFile problem.workload)
      (.text (Files.normal problem.workload))
  else Workload.ofLayer g (.text problem.workload) (.flag problem.pad)

/-- The workload and the hierarchy that a command asks for. -/
def loadedOf (env : Environment) (layersFile : Option String) (problem : Problem) :
    Except Fault (Workload × Hierarchy) := do
  let w ← workloadOf env (← registryOf env layersFile) problem
  return (w, ← hierarchyOf env problem.arch)

theorem reports_loadRegistry (env : Environment) (layersFile : Option String) :
    (loadRegistry env layersFile).Reports (registryOf env layersFile) := by
  cases layersFile with
  | none => exact (Task.reports_pure Registry.packaged).noting (by simp [Calm, Registry.loaded])
  | some path => exact Task.reports_check_note fun g => by simp [Calm, Registry.loaded]

theorem reports_readWorkload (g : Registry) (config path : Value) :
    (readWorkload g config path).Reports (Workload.ofConfig g config path) :=
  (Task.reports_check _).noting (calm_reported_workload g config path)

theorem reports_loadWorkload (env : Environment) (g : Registry) (problem : Problem) :
    (loadWorkload env g problem).Reports (workloadOf env g problem) := by
  refine (Task.reports_check _).bind fun isThere _ => ?_
  cases isThere with
  | true => exact (Task.reports_check _).bind fun config _ => reports_readWorkload g config _
  | false => exact reports_readWorkload g _ _

theorem reports_loadProblem (env : Environment) (layersFile : Option String) (problem : Problem) :
    (loadProblem env layersFile problem).Reports (loadedOf env layersFile problem) :=
  (reports_loadRegistry env layersFile).bind fun g _ =>
    (reports_loadWorkload env g problem).bind fun w _ =>
      (reports_loadHierarchy env problem.arch).bind fun h _ => Task.reports_pure (w, h)

theorem reports_buildMapSpace (w : Workload) (h : Hierarchy) :
    (buildMapSpace w h).Reports (MapSpace.build w h) :=
  (Task.reports_check _).bind fun m _ => (Task.reports_check _).noting (calm_reported_mapSpace m)

end Limited

end Command

end LoopTiling
