import LoopTiling.Proofs.Command.Loading
import LoopTiling.Proofs.Layers
import LoopTiling.Proofs.MapSpace.SameProblem

/-!
# Two ways of naming a layer

A layer can be named on the command line or in a file. The file says for itself whether the bounds of the
layer are rounded up; the option of the command line is for layers that are named there. Loading agrees
where both say the same, and then so do the mapspaces.
-/
namespace LoopTiling.Command

theorem isThere_of_load {missing : String → Fault} {files : Files} {path : String} {v : Value}
    (hv : files.load missing path = .ok v) : files.isThere path = .ok true := by
  rw [Files.load, bind_eq_ok] at hv
  obtain ⟨status, hstatus, hv⟩ := hv
  rw [Files.isThere, hstatus, ok_bind]
  cases status with
  | missing => cases hv
  | directory => cases hv
  | document v => rfl

section Limited

variable [Text.DigitLimit]

/-- The document that names a layer, and tells whether its bounds are rounded up if that is given. -/
def layerDocument (name : String) (pad? : Option Bool) : Value :=
  .map [(.text "problem", .map (Workload.layerProblem name pad?))]

/-- Whether two loadings are refused alike, or give the same hierarchy and workloads with the same name
and bounds, for which the construction of a mapspace is refused alike or gives spaces of the same size
in which every index names the same mapping. -/
def Agree (x x' : Except Fault (Workload × Hierarchy)) : Prop :=
  (∃ fault, x = .error fault ∧ x' = .error fault) ∨
    ∃ w w' h, x = .ok (w, h) ∧ x' = .ok (w', h) ∧ w.SameProblem w' ∧
      ((∃ fault, MapSpace.build w h = .error fault ∧ MapSpace.build w' h = .error fault) ∨
        ∃ m m', MapSpace.build w h = .ok m ∧ MapSpace.build w' h = .ok m' ∧ m'.size = m.size ∧
          ∀ v, m'.decode v = m.decode v)

theorem agree_of_map_path {x : Except Fault (Workload × Hierarchy)} (path : Value) :
    Agree x ((fun p => ({ p.1 with path := path }, p.2)) <$> x) := by
  cases x with
  | error fault => exact .inl ⟨fault, rfl, rfl⟩
  | ok p =>
    have hw : p.1.SameProblem { p.1 with path := path } := ⟨rfl, rfl⟩
    exact .inr ⟨p.1, _, p.2, rfl, rfl, hw, MapSpace.build_sameProblem hw p.2⟩

variable {env : Environment} {layersFile arch : Option String} {name file : String}

theorem workloadOf_name (hname : env.files.isThere name = .ok false) (g : Registry) (pad : Bool) :
    workloadOf env g ⟨name, arch, pad⟩ = Workload.ofNamed g name pad (.text name) := by
  rw [workloadOf, hname, ok_bind, if_neg Bool.false_ne_true, Workload.ofLayer_eq_ofNamed]

theorem workloadOf_file {pad? : Option Bool}
    (hfile : env.files.load .workloadFile file = .ok (layerDocument name pad?)) (g : Registry)
    (pad : Bool) : workloadOf env g ⟨file, arch, pad⟩ =
      Workload.ofNamed g name (pad?.getD true) (.text (Files.normal file)) := by
  rw [workloadOf, isThere_of_load hfile, ok_bind, if_pos rfl, hfile, ok_bind]
  exact Workload.ofConfig_layerProblem g rfl

/-- A file that names a layer gives, whatever the option of the command line says, what the name of the
layer gives there with the option set as the file says. -/
theorem agree_name_file (hname : env.files.isThere name = .ok false) {pad? : Option Bool}
    (hfile : env.files.load .workloadFile file = .ok (layerDocument name pad?)) (pad : Bool) :
    Agree (loadedOf env layersFile ⟨name, arch, pad?.getD true⟩)
      (loadedOf env layersFile ⟨file, arch, pad⟩) := by
  have hmap : loadedOf env layersFile ⟨file, arch, pad⟩ =
      (fun p => ({ p.1 with path := .text (Files.normal file) }, p.2)) <$>
        loadedOf env layersFile ⟨name, arch, pad?.getD true⟩ := by
    simp only [loadedOf, workloadOf_name hname, workloadOf_file hfile,
      Workload.ofNamed_path _ name _ (.text name) (.text (Files.normal file)), map_bind, bind_map_left]
    rfl
  rw [hmap]
  exact agree_of_map_path _

/-- Loading a layer by its name without rounding up and with it gives the same bounds if and only if none
of them is rounded up to another number. -/
theorem sameProblem_iff_round {g : Registry} {path path' : Value} {w w' : Workload}
    (hw : Workload.ofNamed g name false path = .ok w)
    (hw' : Workload.ofNamed g name true path' = .ok w') {given : List (Dim × Numeral)}
    (hgiven : g.layers.lookup name = some given) :
    w.SameProblem w' ↔ ∀ d n, given.lookup d = some n → (g.round n).toInt = n.toInt := by
  obtain ⟨hn, given₁, hgiven₁, hbounds⟩ := Workload.bounds_ofNamed hw
  obtain ⟨hn', given₂, hgiven₂, hbounds'⟩ := Workload.bounds_ofNamed hw'
  obtain rfl : given₁ = given := Option.some.inj (hgiven₁.symm.trans hgiven)
  obtain rfl : given₂ = given₁ := Option.some.inj (hgiven₂.symm.trans hgiven)
  have heach : ∀ d n, given₂.lookup d = some n →
      (w.bounds.get d : ℤ) = n.toInt ∧ (w'.bounds.get d : ℤ) = (g.round n).toInt := by
    intro d n hd
    obtain ⟨m, hm, hbound⟩ := hbounds d
    obtain ⟨m', hm', hbound'⟩ := hbounds' d
    rw [hd, Option.some.injEq] at hm hm'
    subst hm hm'
    exact ⟨hbound, hbound'⟩
  constructor
  · intro hsame d n hd
    obtain ⟨hbound, hbound'⟩ := heach d n hd
    rw [← hbound, ← hbound', hsame.bounds]
  · refine fun hround => ⟨hn'.trans hn.symm, PerDim.ext_get fun d => ?_⟩
    obtain ⟨n, hd, -⟩ := hbounds d
    obtain ⟨hbound, hbound'⟩ := heach d n hd
    exact_mod_cast hbound'.trans ((hround d n hd).trans hbound.symm)

theorem valid_of_registryOf {g : Registry} (hg : registryOf env layersFile = .ok g) : g.Valid := by
  cases layersFile with
  | none =>
    cases hg
    exact Registry.valid_packaged
  | some path =>
    obtain ⟨config, -, hconfig⟩ := bind_eq_ok.mp hg
    exact Registry.valid_of_ofConfig hconfig

/-- A layer that is named in a file is loaded as the name of the layer is with the option for rounding up
set as the file says; the option itself has no effect on it. Where the option asks to round nothing up,
a layer of the table is always loaded by its name, and a file that rounds up gives the same bounds if and
only if none of them is rounded up to another number. -/
theorem layer_named_in_file {g : Registry} {h : Hierarchy}
    (hg : (loadRegistry env layersFile).outcome.1 = .ok g)
    (hh : (loadHierarchy env arch).outcome.1 = .ok h) (hmem : name ∈ g.names)
    (hname : env.files.isThere name = .ok false) {pad? : Option Bool}
    (hfile : env.files.load .workloadFile file = .ok (layerDocument name pad?)) :
    (∀ pad, Agree (loadProblem env layersFile ⟨name, arch, pad?.getD true⟩).outcome.1
      (loadProblem env layersFile ⟨file, arch, pad⟩).outcome.1) ∧
    ∃ w given, (loadProblem env layersFile ⟨name, arch, false⟩).outcome.1 = .ok (w, h) ∧
      g.layers.lookup name = some given ∧ (pad?.getD true = true → ∀ pad w' h',
        (loadProblem env layersFile ⟨file, arch, pad⟩).outcome.1 = .ok (w', h') →
          (w.SameProblem w' ↔ ∀ d n, given.lookup d = some n → (g.round n).toInt = n.toInt)) := by
  have hload (problem : Problem) : (loadProblem env layersFile problem).outcome.1 =
      loadedOf env layersFile problem := (reports_loadProblem env layersFile problem).outcome
  rw [(reports_loadRegistry env layersFile).outcome] at hg
  rw [(reports_loadHierarchy env arch).outcome] at hh
  simp only [hload]
  refine ⟨agree_name_file hname hfile, ?_⟩
  obtain ⟨given, hgiven⟩ := Registry.exists_lookup_of_mem_names hmem
  obtain ⟨w, hw⟩ :=
    Workload.exists_ofNamed (.text name) hgiven ((valid_of_registryOf hg).complete hgiven)
  refine ⟨w, given, ?_, hgiven, fun hpad pad w' h' hw' => ?_⟩
  · rw [loadedOf, hg, ok_bind, workloadOf_name hname, hw, ok_bind, hh]
    rfl
  · rw [loadedOf, hg, ok_bind, workloadOf_file hfile, hpad] at hw'
    obtain ⟨w'', hw'', hpair⟩ := bind_eq_ok.mp hw'
    obtain ⟨h'', -, hpair⟩ := bind_eq_ok.mp hpair
    obtain ⟨rfl, rfl⟩ := Prod.mk.inj (pure_eq_ok.mp hpair)
    exact sameProblem_iff_round hw hw'' hgiven

end Limited

def layerEnvironment : Environment :=
  ⟨{ documents := [("layer.yaml", layerDocument "ALEX_conv1" none)] }, fun _ _ => 0, .zero false⟩

/-- With the option that keeps bounds as they are, the name of a layer and a file that names it give
different bounds. -/
theorem layer_in_file_rounded_up : ∃ w w' h h',
    (loadProblem layerEnvironment none ⟨"ALEX_conv1", none, false⟩).outcome.1 = .ok (w, h) ∧
      (loadProblem layerEnvironment none ⟨"layer.yaml", none, false⟩).outcome.1 = .ok (w', h') ∧
        w.bounds.get .p = 57 ∧ w'.bounds.get .p = 60 := by
  have hbound (workload : String) (n : ℕ)
      (h : ((loadProblem layerEnvironment none ⟨workload, none, false⟩).outcome.1.map fun p =>
        p.1.bounds.get .p).toOption = some n) : ∃ w h,
          (loadProblem layerEnvironment none ⟨workload, none, false⟩).outcome.1 = .ok (w, h) ∧
            w.bounds.get .p = n := by
    cases hload : (loadProblem layerEnvironment none ⟨workload, none, false⟩).outcome.1 with
    | error fault =>
      rw [hload] at h
      cases h
    | ok p =>
      rw [hload] at h
      exact ⟨p.1, p.2, rfl, Option.some.inj h⟩
  obtain ⟨w, h, hload, hw⟩ := hbound "ALEX_conv1" 57 (by decide +kernel)
  obtain ⟨w', h', hload', hw'⟩ := hbound "layer.yaml" 60 (by decide +kernel)
  exact ⟨w, w', h, h', hload, hload', hw, hw'⟩

theorem layer_named_in_file_sample :
    (loadRegistry layerEnvironment none).outcome.1 = .ok .packaged ∧
      "ALEX_conv1" ∈ Registry.packaged.names ∧
      layerEnvironment.files.isThere "ALEX_conv1" = .ok false ∧
      layerEnvironment.files.load .workloadFile "layer.yaml" = .ok (layerDocument "ALEX_conv1" none) ∧
      Agree (loadProblem layerEnvironment none ⟨"ALEX_conv1", none, true⟩).outcome.1
        (loadProblem layerEnvironment none ⟨"layer.yaml", none, true⟩).outcome.1 := by
  have hg : (loadRegistry layerEnvironment none).outcome.1 = .ok .packaged := rfl
  have hmem : "ALEX_conv1" ∈ Registry.packaged.names := by decide
  have hname : layerEnvironment.files.isThere "ALEX_conv1" = .ok false := rfl
  have hfile : layerEnvironment.files.load .workloadFile "layer.yaml" =
      .ok (layerDocument "ALEX_conv1" none) := rfl
  have hh : (loadHierarchy layerEnvironment none).outcome.1 = .ok .default := rfl
  exact ⟨hg, hmem, hname, hfile, (layer_named_in_file hg hh hmem hname hfile).1 true⟩

end LoopTiling.Command
