import LoopTiling.Proofs.Reload

/-!
# Named layers

A registry that is read from a configuration, like the common one, has for each of its layers a positive
bound for every dimension. A workload that a layer gives has that layer's name, and for each dimension
its bound, rounded up on request; where nothing is rounded up, every layer gives one.
-/
namespace LoopTiling

theorem lookup_map_snd {α β : Type} (f : α → β) (t : List (Dim × α)) (d : Dim) :
    (t.map fun e => (e.1, f e.2)).lookup d = (t.lookup d).map f := by
  induction t with
  | nil => rfl
  | cons e t ih =>
    rw [List.map_cons, List.lookup_cons, List.lookup_cons]
    cases d == e.1
    · exact ih
    · rfl

namespace Registry

/-- Whether bounds have a positive one for every dimension. -/
def Complete (bounds : List (Dim × Numeral)) : Prop :=
  ∀ d, ∃ n, bounds.lookup d = some n ∧ 0 < n.toInt

/-- Whether every layer of a registry has a positive bound for every dimension. -/
def Valid (g : Registry) : Prop := ∀ e ∈ g.layers, Complete e.2

theorem exists_lookup_of_mem_names {g : Registry} {name : String} (hname : name ∈ g.names) :
    ∃ bounds, g.layers.lookup name = some bounds := by
  obtain ⟨e, he, rfl⟩ := List.mem_map.mp hname
  cases hlookup : g.layers.lookup e.1 with
  | some bounds => exact ⟨bounds, rfl⟩
  | none => exact absurd (List.lookup_eq_none_iff.mp hlookup e he) (by simp)

theorem Valid.complete {g : Registry} (hg : g.Valid) {name : String} {bounds : List (Dim × Numeral)}
    (hbounds : g.layers.lookup name = some bounds) : Complete bounds :=
  hg (name, bounds) (mem_of_lookup hbounds)

theorem pos_of_readBound {layer : String} {e : Value × Value} {b : Dim × Numeral}
    (hb : readBound layer e = .ok b) : 0 < b.2.toInt := by
  simp only [readBound, bind_eq_ok] at hb
  obtain ⟨d, -, hb⟩ := hb
  split at hb
  · obtain ⟨hnot, hb⟩ := refuse_last_eq_ok.mp hb
    rw [pure_eq_ok] at hb
    subst hb
    dsimp only
    omega
  · cases hb

theorem complete_of_readBounds {layer : String} {dims : Value} {bounds : List (Dim × Numeral)}
    (hb : readBounds layer dims = .ok bounds) : Complete bounds := by
  simp only [readBounds, bind_eq_ok, refuse_eq_ok, pure_eq_ok, mapM_eq_ok] at hb
  obtain ⟨es, -, named, hnamed, hmissing, rfl⟩ := hb
  intro d
  cases hd : (named.foldl (fun t e => setKey e.1 e.2 t) []).lookup d with
  | none =>
    rw [Bool.not_eq_true', Bool.not_eq_false, List.isEmpty_iff, List.filter_eq_nil_iff] at hmissing
    exact absurd (by rw [hd]; rfl) (hmissing d (Dim.mem_all d))
  | some n =>
    have hmem := (mem_of_mem_foldl_setKey named (mem_of_lookup hd)).resolve_left List.not_mem_nil
    obtain ⟨e, -, he⟩ := exists_of_forall₂ hnamed.flip hmem
    exact ⟨n, rfl, pos_of_readBound he⟩

theorem nodup_of_readBounds {layer : String} {dims : Value} {bounds : List (Dim × Numeral)}
    (hb : readBounds layer dims = .ok bounds) : (bounds.map Prod.fst).Nodup := by
  simp only [readBounds, bind_eq_ok, refuse_eq_ok, pure_eq_ok] at hb
  obtain ⟨es, -, named, -, -, rfl⟩ := hb
  exact nodup_foldl_setKey named List.nodup_nil

theorem find?_text (g : Registry) (name : String) :
    g.find? (.text name) = .ok (g.layers.lookup name) := rfl

theorem valid_packaged : packaged.Valid := by
  have hpos : ∀ p ∈ Layers.packagedShapes, ∀ d ∈ Dim.all, 0 < p.2.get d := by decide
  intro e he
  obtain ⟨p, hp, rfl⟩ := List.mem_map.mp he
  intro d
  refine ⟨.plain (p.2.get d), ?_, Int.natCast_pos.mpr (hpos p hp d (Dim.mem_all d))⟩
  cases d <;> rfl

variable [Text.DigitLimit]

/-- The bounds of every layer of a registry that is read were read for it. -/
theorem exists_readBounds {config : Value} {g : Registry} (hg : ofConfig config = .ok g) :
    ∀ e ∈ g.layers, ∃ dims, readBounds e.1 dims = .ok e.2 := by
  simp only [ofConfig, bind_eq_ok, refuse_eq_ok] at hg
  obtain ⟨_, -, -, hg⟩ := hg
  split at hg
  · simp only [ofTables, bind_eq_ok, mapM_eq_ok] at hg
    obtain ⟨es, -, named, hnamed, hg⟩ := hg
    have hlayers : g.layers = named.foldl (fun t e => setKey e.1 e.2 t) [] := by
      split at hg
      · simp only [bind_eq_ok, pure_eq_ok] at hg
        obtain ⟨_, -, _, -, rfl⟩ := hg
        rfl
      · simp only [bind_eq_ok, pure_eq_ok] at hg
        obtain ⟨_, -, _, -, rfl⟩ := hg
        rfl
    intro e he
    rw [hlayers] at he
    have hmem := (mem_of_mem_foldl_setKey named he).resolve_left List.not_mem_nil
    obtain ⟨entry, -, hentry⟩ := exists_of_forall₂ hnamed.flip hmem
    simp only [readLayer, bind_eq_ok, pure_eq_ok] at hentry
    obtain ⟨name, -, bounds, hbounds, rfl⟩ := hentry
    exact ⟨entry.2, hbounds⟩
  · cases hg

/-- Every layer of a registry that is read is complete. -/
theorem valid_of_ofConfig {config : Value} {g : Registry} (hg : ofConfig config = .ok g) :
    g.Valid := by
  intro e he
  obtain ⟨dims, hbounds⟩ := exists_readBounds hg e he
  exact complete_of_readBounds hbounds

/-- What a lookup gives, if it does: the bounds of the layer, rounded up on request. -/
theorem lookup_eq_ok {g : Registry} {name : String} {pad : Bool} {bounds : List (Dim × Numeral)}
    (hb : g.lookup (.text name) (.flag pad) = .ok bounds) :
    ∃ given, g.layers.lookup name = some given ∧
      bounds = given.map fun e => (e.1, if pad then g.round e.2 else e.2) := by
  simp only [lookup, Registry.bounds, bind_eq_ok, find?_text, Except.ok.injEq] at hb
  obtain ⟨given, ⟨found, hfound, hgiven⟩, _, -, hb⟩ := hb
  subst hfound
  cases hlookup : g.layers.lookup name with
  | none =>
    rw [hlookup] at hgiven
    cases hgiven
  | some given' =>
    rw [hlookup, pure_eq_ok] at hgiven
    subst hgiven
    refine ⟨given', rfl, ?_⟩
    cases pad with
    | true => exact (pure_eq_ok.mp hb).symm
    | false =>
      have hmap : given'.map (fun e => (e.1, if false = true then g.round e.2 else e.2)) = given' := by
        simp
      rw [hmap]
      exact (pure_eq_ok.mp hb).symm

theorem lookup_not_padded {g : Registry} {name : String} {bounds : List (Dim × Numeral)}
    (hb : g.layers.lookup name = some bounds) : g.lookup (.text name) (.flag false) = .ok bounds := by
  simp only [lookup, Registry.bounds, find?_text, hb, ok_bind]
  rfl

end Registry

namespace Workload

variable {g : Registry} {name : String} {pad : Bool} {path : Value} {w : Workload}

/-- The problem that names a layer, and tells whether its bounds are rounded up if that is given. -/
def layerProblem (name : String) (pad? : Option Bool) : List (Value × Value) :=
  (.text "layer", .text name) :: (pad?.map fun pad => (.text "padPrimes", .flag pad)).toList

theorem checkBound_toValue {v : Value} {d : Dim} {n : Numeral} {b : ℕ} :
    checkBound v d n.toValue = .ok b ↔ 0 < n.toInt ∧ (b : ℤ) = n.toInt := by
  have hindex : checkBound v d n.toValue =
      if n.toInt < 1 then .error (.workloadBound v d n.toValue) else .ok n.toInt.toNat := by
    cases n <;> rfl
  rw [hindex]
  split
  · next hlow => exact ⟨nofun, fun hb => by omega⟩
  · next hlow =>
    rw [Except.ok.injEq]
    omega

variable [Text.DigitLimit]

/-- The workload of a named layer, rounded up on request, with a path. -/
def ofNamed (g : Registry) (name : String) (pad : Bool) (path : Value) : Except Fault Workload := do
  let bounds ← g.lookup (.text name) (.flag pad)
  ofParts (.text name) (.ofFn fun d => ((bounds.lookup d).map Numeral.toValue).getD .null) unitPair
    unitPair path

theorem ofConfig_layerProblem (g : Registry) {config : Value} {pad? : Option Bool}
    (hproblem : problemOf config path = .ok (layerProblem name pad?)) :
    ofConfig g config path = ofNamed g name (pad?.getD true) path := by
  have hread : readBounds g (layerProblem name pad?) path = (do
      let bounds ← g.lookup (.text name) (.flag (pad?.getD true))
      return (.ofFn fun d => ((bounds.lookup d).map Numeral.toValue).getD .null, .text name)) := by
    have hdim (d : Dim) : Value.field? d.name (layerProblem name pad?) = none := by
      cases pad? <;> cases d <;> rfl
    have hlayer : layerOf (layerProblem name pad?) = (.text name, .flag (pad?.getD true)) := by
      cases pad? <;> rfl
    simp only [readBounds, hlayer, Value.fieldD, hdim]
    rfl
  have hname (v : Value) : Value.fieldD "name" (layerProblem name pad?) v = v := by
    cases pad? <;> rfl
  have hpairs : pairOf (layerProblem name pad?) "Wstride" "Hstride" = unitPair ∧
      pairOf (layerProblem name pad?) "Wdilation" "Hdilation" = unitPair := by
    cases pad? <;> exact ⟨rfl, rfl⟩
  rw [ofConfig, hproblem, ok_bind, hread, ofNamed]
  simp only [bind_assoc, pure_bind, hname, hpairs]

theorem ofLayer_eq_ofNamed (g : Registry) (name : String) (pad : Bool) :
    ofLayer g (.text name) (.flag pad) = ofNamed g name pad (.text name) :=
  ofConfig_layerProblem g (show problemOf (layerConfig (.text name) (.flag pad)) (.text name) =
    .ok (layerProblem name (some pad)) from rfl)

theorem ofNamed_path (g : Registry) (name : String) (pad : Bool) (path path' : Value) :
    ofNamed g name pad path' = (fun w => { w with path := path' }) <$> ofNamed g name pad path := by
  simp only [ofNamed, ofParts, map_bind]
  rfl

/-- The bounds of a workload that a layer gives are those of the layer, rounded up on request. -/
theorem bounds_ofNamed (hw : ofNamed g name pad path = .ok w) :
    w.name = .text name ∧ ∃ given, g.layers.lookup name = some given ∧
      ∀ d, ∃ n, given.lookup d = some n ∧
        (w.bounds.get d : ℤ) = if pad then (g.round n).toInt else n.toInt := by
  simp only [ofNamed, ofParts, bind_eq_ok, pure_eq_ok, PerDim.ofFnM_eq_ok, PerDim.get_ofFn] at hw
  obtain ⟨bounds, hlookup, bs, hbs, rfl⟩ := hw
  obtain ⟨given, hgiven, rfl⟩ := Registry.lookup_eq_ok hlookup
  refine ⟨rfl, given, hgiven, fun d => ?_⟩
  have hd := hbs d
  rw [lookup_map_snd (fun n => if pad = true then g.round n else n)] at hd
  cases hn : given.lookup d with
  | none =>
    rw [hn] at hd
    cases hd
  | some n =>
    rw [hn] at hd
    refine ⟨n, rfl, ?_⟩
    cases pad <;> exact (checkBound_toValue.mp hd).2

/-- A layer that is looked up gives a workload exactly if its bounds are positive; the workload has these
bounds. -/
theorem ofNamed_of_lookup {bounds : List (Dim × Numeral)} {n : Dim → Numeral}
    (hlookup : g.lookup (.text name) (.flag pad) = .ok bounds)
    (hn : ∀ d, bounds.lookup d = some (n d)) :
    (∃ w, ofNamed g name pad path = .ok w ∧ ∀ d, (w.bounds.get d : ℤ) = (n d).toInt) ↔
      ∀ d, 0 < (n d).toInt := by
  simp only [ofNamed, hlookup, ok_bind, ofParts, hn, Option.map_some, Option.getD_some, bind_eq_ok,
    pure_eq_ok, PerDim.ofFnM_eq_ok, PerDim.get_ofFn, checkBound_toValue]
  constructor
  · rintro ⟨_, ⟨bs, hbs, -⟩, -⟩ d
    exact (hbs d).1
  · intro hpos
    refine ⟨_, ⟨.ofFn fun d => (n d).toInt.toNat, fun d => ?_, rfl⟩, fun d => ?_⟩
    all_goals rw [PerDim.get_ofFn]
    · exact ⟨hpos d, Int.toNat_of_nonneg (hpos d).le⟩
    · exact Int.toNat_of_nonneg (hpos d).le

/-- Where nothing is rounded up, every layer with positive bounds for all dimensions gives a workload. -/
theorem exists_ofNamed (path : Value) {given : List (Dim × Numeral)}
    (hgiven : g.layers.lookup name = some given) (hcomplete : Registry.Complete given) :
    ∃ w, ofNamed g name false path = .ok w := by
  choose n hn hpos using hcomplete
  obtain ⟨w, hw, -⟩ := (ofNamed_of_lookup (Registry.lookup_not_padded hgiven) hn).mpr hpos
  exact ⟨w, hw⟩

end Workload

end LoopTiling
