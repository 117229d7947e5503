import LoopTiling.Proofs.Command.Decode
import LoopTiling.Proofs.Forms
import LoopTiling.Proofs.MapSpace.Refusals

/-!
# How a command ends

A command that finds configurations of the right form always ends: with status zero if what it asks for
can be done, and otherwise with status one and an error line. Only a number with too many digits to be
shown, where there is such a limit, ends it in another way. A configuration of another form, as a list
where a map is needed, ends it with a fault of the value.
-/
namespace LoopTiling

/-- A fault that tells why a request cannot be carried out, or one of the limit of the digits. -/
def Fault.Stops [Text.DigitLimit] (usable : Prop) (fault : Fault) : Prop :=
  fault.OfLimit ∨ ¬ usable ∧ fault.Answerable

namespace FailsOnly

variable [Text.DigitLimit] {α : Type} {x : Except Fault α} {usable : Prop}

theorem stops (h : FailsOnly Fault.OfLimit x) : FailsOnly (Fault.Stops usable) x :=
  h.mono fun _ hf => .inl hf

/-- What comes to a result where a request can be carried out stops it where it fails. -/
theorem stops_of_usable (h : FailsOnly Fault.Answerable x) (hok : usable → ∃ a, x = .ok a) :
    FailsOnly (Fault.Stops usable) x := by
  rintro fault rfl
  refine .inr ⟨fun hu => ?_, h fault rfl⟩
  obtain ⟨_, hx⟩ := hok hu
  cases hx

end FailsOnly

namespace Command

/-- Whether a path leads to nothing, or to a document whose content, an empty map where it counts as
false, has a form. -/
def Files.Holds (files : Files) (path : String) (form : Value → Prop) : Prop :=
  files.status path = .ok .missing ∨
    ∃ v, files.status path = .ok (.document v) ∧ form (if v.truthy then v else .map [])

/-- Whether the documents that a problem names have the form of a workload and of a hierarchy. -/
structure Problem.WellFormed (env : Environment) (problem : Problem) : Prop where
  workload : env.files.Holds problem.workload Workload.HasForm
  arch : ∀ path, problem.arch = some path → env.files.Holds path Hierarchy.HasForm

/-- Whether a request names documents of the right form, asks for a mapping by its index if it asks for
one, and names an output that can be written if it names one. -/
def Request.WellFormed (env : Environment) : Request → Prop
  | .layers => True
  | .info problem => problem.WellFormed env
  | .size problem => problem.WellFormed env
  | .decode problem pick output => problem.WellFormed env ∧ (∃ n, pick = .index n) ∧
      ∀ path, output = some path → ∃ place, env.files.placeToWrite path = .ok place

theorem hasForm_layerConfig (name : String) (pad : Value) :
    Workload.HasForm (Workload.layerConfig (.text name) pad) :=
  ⟨_, rfl, by rintro _ ⟨⟩; rfl⟩

theorem valid_of_hierarchyOf {env : Environment} {arch : Option String} {h : Hierarchy}
    (hh : hierarchyOf env arch = .ok h) : h.Valid := by
  cases arch with
  | none =>
    cases hh
    exact Hierarchy.valid_default
  | some path =>
    obtain ⟨_, -, hconfig⟩ := bind_eq_ok.mp hh
    exact Hierarchy.valid_of_ofConfig hconfig

section Limited

variable [limit : Text.DigitLimit]

/-- Whether a request can be carried out with what is configured: the layers, the workload and the
hierarchy can be read, there is a mapspace where it is needed, and it has the mapping that is asked for. -/
def Usable (env : Environment) (layersFile : Option String) : Request → Prop
  | .layers => ∃ g, (loadRegistry env layersFile).outcome.1 = .ok g
  | .info problem => ∃ w h, (loadProblem env layersFile problem).outcome.1 = .ok (w, h)
  | .size problem => ∃ w h, (loadProblem env layersFile problem).outcome.1 = .ok (w, h) ∧
      ∃ m, MapSpace.build w h = .ok m
  | .decode problem (.index n) _ => ∃ w h,
      (loadProblem env layersFile problem).outcome.1 = .ok (w, h) ∧
        ∃ m, MapSpace.build w h = .ok m ∧ 0 ≤ n ∧ n < m.size
  | .decode problem (.random _) _ => ∃ w h,
      (loadProblem env layersFile problem).outcome.1 = .ok (w, h) ∧ ∃ m, MapSpace.build w h = .ok m

variable {env : Environment} {layersFile : Option String} {problem : Problem}

theorem Files.Holds.failsOnly_load {files : Files} {path : String} {form : Value → Prop}
    {missing : String → Fault} {α : Type} {read : Value → Except Fault α}
    (h : files.Holds path form) (hmissing : ∀ p, (missing p).causeKind = .missingFile)
    (hread : ∀ v, form v → FailsOnly Fault.Answerable (read v)) :
    FailsOnly Fault.Answerable (files.load missing path >>= read) := by
  rcases h with h | ⟨v, h, hv⟩
  · rw [load, h, ok_bind]
    exact failsOnly_error (.inr (.inl (hmissing _)))
  · rw [load, h, ok_bind]
    exact hread _ hv

theorem failsOnly_registryOf
    (h : ∀ path, layersFile = some path → env.files.Holds path Registry.HasForm) :
    FailsOnly Fault.Answerable (registryOf env layersFile) := by
  cases layersFile with
  | none => exact failsOnly_ok _
  | some path =>
    exact (h path rfl).failsOnly_load (fun _ => rfl) fun _ hv => Registry.failsOnly_ofConfig hv

theorem failsOnly_workloadOf (h : env.files.Holds problem.workload Workload.HasForm) (g : Registry) :
    FailsOnly Fault.Answerable (workloadOf env g problem) := by
  have hthere : ∃ b, env.files.isThere problem.workload = .ok b := by
    rcases h with h | ⟨v, h, -⟩ <;> exact ⟨_, by rw [Files.isThere, h]; rfl⟩
  obtain ⟨b, hb⟩ := hthere
  rw [workloadOf, hb, ok_bind]
  refine FailsOnly.ite (fun _ => ?_) fun _ => ?_
  · exact h.failsOnly_load (fun _ => rfl) fun v hv => Workload.failsOnly_ofConfig hv g _
  · exact Workload.failsOnly_ofConfig (hasForm_layerConfig _ _) g _

theorem failsOnly_hierarchyOf {arch : Option String}
    (h : ∀ path, arch = some path → env.files.Holds path Hierarchy.HasForm) :
    FailsOnly Fault.Answerable (hierarchyOf env arch) := by
  cases arch with
  | none => exact failsOnly_ok _
  | some path =>
    exact (h path rfl).failsOnly_load (fun _ => rfl) fun _ hv => Hierarchy.failsOnly_ofConfig hv

theorem failsOnly_loadedOf (hproblem : problem.WellFormed env)
    (hlayers : ∀ path, layersFile = some path → env.files.Holds path Registry.HasForm) :
    FailsOnly Fault.Answerable (loadedOf env layersFile problem) :=
  (failsOnly_registryOf hlayers).bind fun g _ => (failsOnly_workloadOf hproblem.workload g).bind
    fun _ _ => (failsOnly_hierarchyOf hproblem.arch).bind fun _ _ => failsOnly_ok _

theorem valid_of_loadedOf {w : Workload} {h : Hierarchy}
    (hload : loadedOf env layersFile problem = .ok (w, h)) : h.Valid := by
  simp only [loadedOf, bind_eq_ok, pure_eq_ok] at hload
  obtain ⟨_, -, _, -, _, hh, hpair⟩ := hload
  obtain ⟨-, rfl⟩ := Prod.mk.inj hpair
  exact valid_of_hierarchyOf hh

theorem ends_runInfo (w : Workload) (h : Hierarchy) :
    (runInfo w h).Ends Fault.OfLimit fun status => status = 0 := by
  refine (Task.ends_print _).bind fun _ _ => (Task.ends_print _).bind fun _ _ =>
    (Task.ends_check w.failsOnly_summary).bind fun _ _ => (Task.ends_print _).bind fun _ _ =>
      (Task.ends_print _).bind fun _ _ => (Task.ends_forIn fun d _ => ?_).bind fun _ _ =>
        (Task.ends_print _).bind fun _ _ => (Task.ends_print _).bind fun _ _ =>
          (Task.ends_check h.failsOnly_summary).bind fun _ _ => (Task.ends_print _).bind fun _ _ =>
            Task.ends_pure rfl
  exact (Task.ends_check (failsOnly_divisorLine d _)).bind fun _ _ => (Task.ends_print _).bind fun _ _ =>
    Task.ends_pure rfl

variable {w : Workload} {h : Hierarchy} {usable : Prop}

theorem ends_buildMapSpace (hh : h.Valid) (hu : usable → ∃ m, MapSpace.build w h = .ok m) :
    (buildMapSpace w h).Ends (Fault.Stops usable) fun m => MapSpace.build w h = .ok m :=
  (reports_buildMapSpace w h).ends ((MapSpace.failsOnly_build w hh).stops_of_usable hu)

theorem ends_runSize (verbose : Bool) (hh : h.Valid) (hu : usable → ∃ m, MapSpace.build w h = .ok m) :
    (runSize env verbose w h).Ends (Fault.Stops usable) fun status =>
      status = 0 ∧ ∃ m, MapSpace.build w h = .ok m := by
  refine (ends_buildMapSpace hh hu).bind fun m hm =>
    (Task.ends_check m.failsOnly_summary.stops).bind fun _ _ => (Task.ends_print _).bind fun _ _ => ?_
  cases verbose with
  | false => exact Task.ends_pure ⟨rfl, m, hm⟩
  | true =>
    exact (Task.ends_check (failsOnly_timing _).stops).bind fun _ _ =>
      (Task.ends_print _).bind fun _ _ => Task.ends_pure ⟨rfl, m, hm⟩

/-- Decoding stops a request only if its index is out of range. -/
theorem failsOnly_decode {m : MapSpace} (hm : MapSpace.build w h = .ok m) {n : ℤ}
    (hu : usable → 0 ≤ n ∧ n < m.size) : FailsOnly (Fault.Stops usable) (m.decode (.int n)) := by
  by_cases hn : 0 ≤ n ∧ n < m.size
  · obtain ⟨i, rfl⟩ := Int.eq_ofNat_of_zero_le hn.1
    obtain ⟨mapping, _, hdecode, -⟩ := MapSpace.exists_decode hm (Int.ofNat_lt.mp hn.2)
    rw [hdecode]
    exact failsOnly_ok mapping
  · rw [m.decode_of_out_of_range (by omega)]
    exact failsOnly_error (.inr ⟨fun u => hn (hu u), .inr (.inr (.inl rfl))⟩)

theorem ends_runDecode {n : ℤ} {output : Option String} (hh : h.Valid)
    (hplace : ∀ path, output = some path → ∃ place, env.files.placeToWrite path = .ok place)
    (hu : usable → ∃ m, MapSpace.build w h = .ok m ∧ 0 ≤ n ∧ n < m.size) :
    (runDecode env (.index n) output w h).Ends (Fault.Stops usable) fun status =>
      status = 0 ∧ ∃ m, MapSpace.build w h = .ok m ∧ 0 ≤ n ∧ n < m.size := by
  refine (ends_buildMapSpace hh fun u => (hu u).imp fun _ => And.left).bind fun m hm =>
    (Task.ends_check (failsOnly_decode hm fun u => ?_)).bind fun mapping hdecode => ?_
  · obtain ⟨m', hm', hn⟩ := hu u
    obtain rfl := Except.ok.inj (hm.symm.trans hm')
    exact hn
  -- What is decoded passes its checks, and can be written; showing it is left.
  have hn := MapSpace.range_of_decode hdecode
  obtain ⟨i, rfl⟩ := Int.eq_ofNat_of_zero_le hn.1
  obtain ⟨_, config, hdecode', hvalid, hconfig, hpretty⟩ :=
    MapSpace.exists_decode hm (Int.ofNat_lt.mp hn.2)
  obtain rfl := Except.ok.inj (hdecode.symm.trans hdecode')
  have hshown := MapSpace.failsOnly_pretty hm hdecode hpretty
  refine (Task.ends_check (failsOnly_count _).stops).bind fun _ _ => (Task.ends_print _).bind
    fun _ _ => (Task.ends_check hshown.stops).bind fun _ _ => (Task.ends_print _).bind
      fun _ _ => (Task.ends_check_ok hvalid).bind ?_
  rintro _ rfl
  refine (Task.ends_note _).bind fun _ _ => ?_
  cases output with
  | none => exact Task.ends_pure ⟨rfl, m, hm, hn⟩
  | some path =>
    obtain ⟨place, hplace⟩ := hplace path rfl
    exact (Task.ends_check_ok hplace).bind fun _ _ => (Task.ends_check_ok hconfig).bind fun _ _ =>
      (Task.ends_write _ _).bind fun _ _ => (Task.ends_print _).bind fun _ _ =>
        Task.ends_pure ⟨rfl, m, hm, hn⟩

/-- A request about a problem ends as the reading of its documents does, or as what follows it does. -/
theorem ends_problem (rest : Workload → Hierarchy → Task ℕ) (good : Workload → Hierarchy → Prop)
    (hload : FailsOnly Fault.Answerable (loadedOf env layersFile problem))
    (hrest : ∀ w h, h.Valid →
      (rest w h).Ends (Fault.Stops (good w h)) fun status => status = 0 ∧ good w h) :
    (loadProblem env layersFile problem >>= fun p => rest p.1 p.2).Ends
      (Fault.Stops (∃ w h, (loadProblem env layersFile problem).outcome.1 = .ok (w, h) ∧ good w h))
      fun status => status = 0 ∧
        ∃ w h, (loadProblem env layersFile problem).outcome.1 = .ok (w, h) ∧ good w h := by
  have hreports := reports_loadProblem env layersFile problem
  simp only [hreports.outcome]
  refine (hreports.ends (hload.stops_of_usable fun ⟨w, h, hl, _⟩ => ⟨_, hl⟩)).bind fun ⟨w, h⟩ hl => ?_
  refine (hrest w h (valid_of_loadedOf hl)).mono (fun fault hf => ?_) fun status hs =>
    ⟨hs.1, w, h, hl, hs.2⟩
  -- What has been loaded is all that could be, so nothing else is good either.
  refine hf.imp_right fun ⟨hnot, hanswer⟩ => ⟨?_, hanswer⟩
  rintro ⟨w', h', hl', hgood⟩
  obtain ⟨rfl, rfl⟩ := Prod.mk.inj (Except.ok.inj (hl.symm.trans hl'))
  exact hnot hgood

theorem ends_layers (verbose : Bool)
    (hlayers : ∀ path, layersFile = some path → env.files.Holds path Registry.HasForm) :
    (runRequest env ⟨verbose, layersFile, some .layers⟩ .layers).Ends
      (Fault.Stops (Usable env layersFile .layers)) fun status =>
        status = 0 ∧ Usable env layersFile .layers := by
  have hreports := reports_loadRegistry env layersFile
  have husable : Usable env layersFile .layers ↔ ∃ g, registryOf env layersFile = .ok g := by
    rw [Usable, hreports.outcome]
  simp only [husable]
  refine (hreports.ends ((failsOnly_registryOf hlayers).stops_of_usable id)).bind fun g hg =>
    (Task.ends_forIn fun name _ => ?_).bind fun _ _ => Task.ends_pure ⟨rfl, g, hg⟩
  exact (Task.ends_print _).bind fun _ _ => Task.ends_pure rfl

/-- A request ends with status zero where it can be carried out, and fails otherwise. -/
theorem ends_runRequest {invocation : Invocation} {request : Request}
    (hlayers : ∀ path, invocation.layersFile = some path → env.files.Holds path Registry.HasForm)
    (hrequest : request.WellFormed env) :
    (runRequest env invocation request).Ends
      (Fault.Stops (Usable env invocation.layersFile request)) fun status =>
        status = 0 ∧ Usable env invocation.layersFile request := by
  cases request with
  | layers => exact ends_layers invocation.verbose hlayers
  | info problem =>
    have hends := ends_problem runInfo (fun _ _ => True) (failsOnly_loadedOf hrequest hlayers)
      fun w h _ => (ends_runInfo w h).mono (fun _ hf => .inl hf) fun _ hs => ⟨hs, trivial⟩
    simp only [and_true] at hends
    exact hends
  | size problem =>
    exact ends_problem _ _ (failsOnly_loadedOf hrequest hlayers) fun w h hh =>
      ends_runSize invocation.verbose hh id
  | decode problem pick output =>
    obtain ⟨hproblem, ⟨n, rfl⟩, hplace⟩ := hrequest
    exact ends_problem _ _ (failsOnly_loadedOf hproblem hlayers) fun w h hh => ends_runDecode hh hplace id

/-- Only a limit of the digits keeps an answerable fault from being reported. -/
theorem kind_of_not_reported {fault : Fault} (hfault : fault.Answerable) (h : ¬ isReported fault) :
    limit.most? ≠ none ∧ fault.kind = .value := by
  have hshown (hcause : fault.causeKind = .configuration ∨ fault.causeKind = .missingFile ∨
      fault.causeKind = .index) : ¬ fault.sentence?.isSome := by
    intro hs
    rw [isReported, Fault.kind, if_pos hs] at h
    rcases hcause with hc | hc | hc <;> rw [hc] at h <;> exact h rfl
  have hsilent (hnot : ¬ fault.sentence?.isSome) : limit.most? ≠ none ∧ fault.kind = .value :=
    ⟨fun hl => hnot (fault.isSome_sentence? hl), by rw [Fault.kind, if_neg hnot]⟩
  rcases hfault with hc | hc | hc | ⟨hl, rfl⟩
  · exact hsilent (hshown (.inl hc))
  · exact hsilent (hshown (.inr (.inl hc)))
  · exact hsilent (hshown (.inr (.inr hc)))
  · exact ⟨hl, rfl⟩

/-- How a command ends whose request stops at a fault. -/
theorem finish_of_stops {usable : Prop} {fault : Fault} (hfault : fault.Stops usable) (verbose : Bool)
    (s : Session) :
    (¬ usable ∧ (finish verbose (.error fault) s).exit = .ok 1 ∧
      (finish verbose (.error fault) s).session.printed =
        s.printed ++ ["Error: " ++ faultText fault ++ "\n"]) ∨
    (limit.most? ≠ none ∧ fault.kind = .value ∧
      (finish verbose (.error fault) s).exit = .error fault) := by
  simp only [finish]
  by_cases hreported : isReported fault
  · rw [if_pos hreported]
    rcases hfault with ⟨-, rfl⟩ | ⟨hnot, -⟩
    · cases hreported
    · exact .inl ⟨hnot, rfl, rfl⟩
  · rw [if_neg hreported]
    have hanswer : fault.Answerable := hfault.elim (fun hf => .inr (.inr (.inr hf))) And.right
    obtain ⟨hlimit, hkind⟩ := kind_of_not_reported hanswer hreported
    exact .inr ⟨hlimit, hkind, rfl⟩

/-- A command that finds documents of the right form ends with status zero if its request can be carried
out with them, and otherwise with status one and an error line as the last one. Only where the digits
that can be shown are limited it may end with a fault, that of the value. -/
theorem ends_with_status {args : List String} {invocation : Invocation} {request : Request}
    (hargs : readArguments args = .accepted invocation) (hasks : invocation.request = some request)
    (hlayers : ∀ path, invocation.layersFile = some path → env.files.Holds path Registry.HasForm)
    (hrequest : request.WellFormed env) :
    ((run env args).exit = .ok 0 ∧ Usable env invocation.layersFile request) ∨
    ((run env args).exit = .ok 1 ∧ ¬ Usable env invocation.layersFile request ∧
      ∃ text, (run env args).session.printed.getLast? = some ("Error: " ++ text ++ "\n")) ∨
    (limit.most? ≠ none ∧ ∃ fault, (run env args).exit = .error fault ∧ fault.kind = .value) := by
  have hends := ends_runRequest hlayers hrequest {}
  rw [← Task.outcome_eq_after] at hends
  -- `run` shows a part of the journal only; status and lines are those of `finish`.
  simp only [run, hargs, hasks]
  generalize (runRequest env invocation request).outcome = outcome at hends ⊢
  obtain ⟨fault | status, s⟩ := outcome
  · rcases finish_of_stops (hends.1 fault rfl) invocation.verbose s with ⟨hnot, hexit, hprinted⟩ |
      ⟨hlimit, hkind, hexit⟩
    · refine .inr (.inl ⟨hexit, hnot, faultText fault, ?_⟩)
      rw [hprinted, List.getLast?_append]
      rfl
    · exact .inr (.inr ⟨hlimit, fault, hexit, hkind⟩)
  · obtain ⟨rfl, husable⟩ := hends.2 status rfl
    exact .inl ⟨rfl, husable⟩

end Limited

/-- Beside a workload and two levels, the documents of a workload with a single bound, of a list, and of a
table of layers with nothing in its section of layers. -/
def brokenEnvironment : Environment :=
  { pairEnvironment with
    files.documents := pairEnvironment.files.documents ++
      [("part.yaml", .map [(.text "problem", .map [(.text "R", .int 3)])]),
        ("list.yaml", .list [.int 1]), ("layers.yaml", .map [(.text "layers", .null)])] }

/-- Without a limit of the digits a workload that misses bounds ends the command with an error line. -/
theorem ends_with_status_sample :
    readArguments ["info", "-w", "part.yaml"] =
      .accepted ⟨false, none, some (.info ⟨"part.yaml", none, true⟩)⟩ ∧
    (Request.info ⟨"part.yaml", none, true⟩).WellFormed brokenEnvironment ∧
    (@run ⟨none⟩ brokenEnvironment ["info", "-w", "part.yaml"]).exit = .ok 1 ∧
    ∃ text, (@run ⟨none⟩ brokenEnvironment ["info", "-w", "part.yaml"]).session.printed.getLast? =
      some ("Error: " ++ text ++ "\n") := by
  have hargs (limit : Text.DigitLimit) : readArguments ["info", "-w", "part.yaml"] =
      .accepted ⟨false, none, some (.info ⟨"part.yaml", none, true⟩)⟩ := rfl
  have hform : (Request.info ⟨"part.yaml", none, true⟩).WellFormed brokenEnvironment :=
    ⟨.inr ⟨_, rfl, _, rfl, by rintro _ ⟨⟩; rfl⟩, nofun⟩
  refine ⟨hargs _, hform, ?_⟩
  rcases @ends_with_status ⟨none⟩ brokenEnvironment _ _ _ (hargs _) rfl nofun hform with
    ⟨-, husable⟩ | ⟨hexit, -, hprinted⟩ | ⟨hlimit, -⟩
  · obtain ⟨w, h, hload⟩ := husable
    cases hload
  · exact ⟨hexit, hprinted⟩
  · exact absurd rfl hlimit

/-- A list where a map is needed, as a workload and as a hierarchy, and a section without layers end the
program with a fault of the value, and no error line is shown. -/
theorem ends_with_fault_of_value :
    run brokenEnvironment ["info", "-w", "list.yaml"] = ⟨.error (.unsupported .attribute), {}⟩ ∧
    run brokenEnvironment ["size", "-w", "w.yaml", "-a", "list.yaml"] =
      ⟨.error (.unsupported .attribute), {}⟩ ∧
    run brokenEnvironment ["--layers-file", "layers.yaml", "layers"] =
      ⟨.error (.unsupported .attribute), {}⟩ := by
  exact ⟨rfl, rfl, rfl⟩

end Command

end LoopTiling
