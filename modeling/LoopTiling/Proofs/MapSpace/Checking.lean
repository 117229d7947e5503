import LoopTiling.Proofs.MapSpace.Records
import LoopTiling.Proofs.Numerals
import LoopTiling.Proofs.Sorting

/-!
# What the checks of a mapping find

A mapping that records a member of a mapspace has for every dimension factors that make its bound, and
at every level an order of all dimensions. So what is found in it against a workload are the dimensions whose
bounds differ from those of its own workload, as long as these bounds can be shown, and nothing is found
against its own workload.
-/
namespace LoopTiling

namespace Value

/-- The place of the letter of a text among all characters. -/
def letterRank : Value → ℕ
  | .text s => (s.toList.head?.map Char.toNat).getD 0
  | _ => 0

theorem letterRank_name (d : Dim) : letterRank (.text d.name) = d.letter.toNat := by
  simp [letterRank, Dim.name]

theorem ranked_names (ds : List Dim) : Ranked id letterRank (Mapping.names ds) := by
  intro v hv v' hv'
  obtain ⟨d, -, rfl⟩ := List.mem_map.mp hv
  obtain ⟨d', -, rfl⟩ := List.mem_map.mp hv'
  have hless : (Value.text d.name).less (.text d'.name) =
      .ok (textLess [d.letter] [d'.letter]) := by
    simp [less, lessScalars, Dim.name]
  rw [letterRank_name, letterRank_name]
  refine hless.trans (congrArg Except.ok ?_)
  by_cases he : d.letter = d'.letter <;> simp [textLess, he]

/-- The names of all dimensions are sorted the same whatever their order was. -/
theorem sorted_names {ds : List Dim} (hds : ds.Perm Dim.all) :
    sorted (Mapping.names ds) = .ok Mapping.sortedNames := by
  have hall : Mapping.sortedNames = Mapping.names [.c, .k, .n, .p, .q, .r, .s] := rfl
  have hperm : [Dim.c, .k, .n, .p, .q, .r, .s].Perm ds := List.Perm.trans (by decide) hds.symm
  have hascends : [Dim.c, .k, .n, .p, .q, .r, .s].Pairwise
      fun d d' => d.letter.toNat < d'.letter.toNat := by decide
  refine sortedBy_eq (ranked_names ds) (hall ▸ hperm.map _) ?_
  rw [hall, Mapping.names, List.pairwise_map]
  simpa only [letterRank_name] using hascends

end Value

theorem map_getD_range (ns : List ℕ) (count : ℕ) :
    (List.range (min count ns.length)).map (ns.getD · 1) = ns.take count := by
  refine List.ext_getElem (by simp) fun i hi hi' => ?_
  have hlt : i < ns.length := (List.length_take_le' count ns).trans_lt' hi'
  rw [List.getElem_map, List.getElem_range, List.getD_eq_getElem _ _ hlt, List.getElem_take]

theorem MapSpace.Tiles.map_getD_range {w : Workload} {h : Hierarchy} {d : Dim} {fs : List ℕ}
    (ht : Tiles w h d fs) : (List.range h.levelCount).map (fs.getD · 1) = fs := by
  have hall := LoopTiling.map_getD_range fs h.levelCount
  rwa [ht.length, min_self, List.take_of_length_le ht.length.le] at hall

namespace Mapping

variable {w : Workload} {h : Hierarchy} {m : Mapping} {p : Plan}

theorem Follows.recordedLevels (hm : m.Follows h p) : m.recordedLevels =
    .ok ((List.range h.levelCount).map fun k => .ok (MapSpace.factorsOfLevel p.factors k)) := by
  have htable : m.loopBounds = .map ((List.range h.levelCount).map fun (level : ℕ) =>
      (.int level, MapSpace.factorsOfLevel p.factors level)) := congrArg Prod.fst hm
  rw [Mapping.recordedLevels, htable]
  simp only [List.map_map]
  rfl

theorem multiplyLevels_factors (factors : PerDim (List ℕ)) (d : Dim) (ks : List ℕ) (n : ℕ) :
    multiplyLevels (.text d.name) (ks.map fun k => .ok (MapSpace.factorsOfLevel factors k))
        (.number (.int n)) =
      .ok (.number (.int ((n * (ks.map fun k => (factors.get d).getD k 1).prod : ℕ) : ℤ))) := by
  induction ks generalizing n with
  | nil => simp [multiplyLevels]
  | cons k ks ih =>
    have hlevel := multiply_names (fun d => (factors.get d).getD k 1) [d] n
    rw [List.map_singleton, List.map_singleton, List.prod_singleton] at hlevel
    rw [List.map_cons, multiplyLevels, ok_bind, MapSpace.factorsOfLevel, hlevel, ok_bind, ih,
      List.map_cons, List.prod_cons, Nat.mul_assoc]

/-- The factors of a dimension that a member records make its bound. -/
theorem Follows.product (hm : m.Follows h p) (hp : p.Fits w h) (d : Dim) :
    (do multiplyLevels (.text d.name) (← m.recordedLevels) .one) =
      .ok (.number (.int (w.bounds.get d))) := by
  have hproduct := multiplyLevels_factors p.factors d (List.range h.levelCount) 1
  have hfactors := hp.factors d
  rw [hfactors.map_getD_range, Nat.one_mul, hfactors.prod] at hproduct
  rw [hm.recordedLevels, ok_bind]
  exact hproduct

theorem Follows.exists_orders (hm : m.Follows h p) (hp : p.Fits w h) :
    ∃ os : List (List Dim × ℕ), (∀ e ∈ os, e.1.Perm Dim.all) ∧
      m.permutation = .map (os.map fun e => (.int e.2, .list (names e.1))) := by
  refine ⟨(h.levels.zipIdx.map fun e => p.order e.2).zipIdx, fun e he => ?_,
    congrArg (fun t => t.2.1) hm⟩
  have hmem := List.mem_of_getElem? (List.mem_zipIdx_iff_getElem?.mp he)
  obtain ⟨e', he', ho⟩ := List.mem_map.mp hmem
  exact ho ▸ (hp.order e' he').1

end Mapping

namespace Workload

/-- The dimensions whose bounds differ, in canonical order. -/
def differing (w w' : Workload) : List Dim := Dim.all.filter fun d => w.bounds.get d ≠ w'.bounds.get d

theorem mem_differing {w w' : Workload} {d : Dim} :
    d ∈ w.differing w' ↔ w.bounds.get d ≠ w'.bounds.get d := by
  rw [differing, List.mem_filter, decide_eq_true_iff]
  exact and_iff_right (Dim.mem_all d)

theorem differing_eq_nil_iff {w w' : Workload} : w.differing w' = [] ↔ w.bounds = w'.bounds := by
  rw [List.eq_nil_iff_forall_not_mem]
  constructor
  · exact fun hnone => PerDim.ext_get fun d => not_not.mp fun hne => hnone d (mem_differing.mpr hne)
  · exact fun he d hd => mem_differing.mp hd (congrArg (PerDim.get · d) he)

/-- Whether the bounds of a dimension in two workloads can both be shown. -/
def BoundsShort [Text.DigitLimit] (w w' : Workload) (d : Dim) : Prop :=
  Text.isShort (w.bounds.get d) ∧ Text.isShort (w'.bounds.get d)

instance [Text.DigitLimit] (w w' : Workload) (d : Dim) : Decidable (w.BoundsShort w' d) :=
  inferInstanceAs (Decidable (_ ∧ _))

theorem boundsShort_of_unlimited [limit : Text.DigitLimit] (hlimit : limit.most? = none)
    (w w' : Workload) (d : Dim) : w.BoundsShort w' d :=
  ⟨Text.isShort_of_unlimited hlimit _, Text.isShort_of_unlimited hlimit _⟩

end Workload

namespace Mapping

/-- What is said of a dimension whose factors make one number where another one is wanted. -/
def mismatch (d : Dim) (found wanted : ℕ) : String :=
  s!"Dimension {d.name}: product of factors ({found}) != problem size ({wanted})"

section Limited

variable [Text.DigitLimit] {w w' : Workload} {h : Hierarchy} {m : Mapping} {p : Plan} {d : Dim}

/-- The factors of a dimension make the bound of the own workload, and are held against the other one. -/
theorem Follows.boundError_eq (hm : m.Follows h p) (hp : p.Fits w h) (w' : Workload) (d : Dim) :
    m.boundError w' d = if w.bounds.get d = w'.bounds.get d then .ok none else do
      let found ← shown (Text.decimal? (w.bounds.get d))
      let wanted ← shown (Text.decimal? (w'.bounds.get d))
      return some s!"Dimension {d.name}: product of factors ({found}) != problem size ({wanted})" := by
  have hlevels := hm.recordedLevels
  have hproduct := hm.product hp d
  rw [hlevels, ok_bind] at hproduct
  have hequal : (Product.number (.int (w.bounds.get d))).isNumber (w'.bounds.get d) =
      .ok (decide (w.bounds.get d = w'.bounds.get d)) := by
    refine congrArg Except.ok (Bool.eq_iff_iff.mpr ?_)
    simp [Number.equal, Number.compare?]
  rw [boundError, hlevels, ok_bind, hproduct, ok_bind]
  dsimp only
  rw [hequal, ok_bind]
  simp only [decide_eq_true_iff]
  rfl

theorem decimal?_natCast {n : ℕ} (hn : Text.isShort n) : Text.decimal? n = some (toString n) := by
  rw [Text.decimal?, if_pos hn, Text.toString_int, if_pos (Int.natCast_nonneg n), Int.natAbs_natCast]

theorem Follows.boundError_of_short (hm : m.Follows h p) (hp : p.Fits w h)
    (hshort : w.bounds.get d ≠ w'.bounds.get d → w.BoundsShort w' d) : m.boundError w' d =
      .ok (if w.bounds.get d = w'.bounds.get d then none
        else some (mismatch d (w.bounds.get d) (w'.bounds.get d))) := by
  rw [hm.boundError_eq hp]
  split
  · rfl
  · next hne =>
    obtain ⟨hfound, hwanted⟩ := hshort hne
    rw [decimal?_natCast hfound, decimal?_natCast hwanted]
    rfl

theorem Follows.boundError_of_long (hm : m.Follows h p) (hp : p.Fits w h)
    (hne : w.bounds.get d ≠ w'.bounds.get d) (hlong : ¬ w.BoundsShort w' d) :
    m.boundError w' d = .error (.unsupported .value) := by
  rw [hm.boundError_eq hp, if_neg hne, Text.decimal?, Text.decimal?]
  by_cases hfound : Text.isShort (w.bounds.get d)
  · rw [if_pos hfound, if_neg fun hwanted => hlong ⟨hfound, hwanted⟩]
    rfl
  · rw [if_neg hfound]
    rfl

theorem orderError_eq_none {ds : List Dim} (hds : ds.Perm Dim.all) (level : Value) :
    orderError level (.list (names ds)) = .ok none := by
  have hitems : (Value.list (names ds)).items = .ok (names ds) := rfl
  have hequal : (Value.list sortedNames).equal (.list sortedNames) = .ok true :=
    eq_ok_of_toOption (by decide +kernel)
  rw [orderError, hitems, ok_bind, Value.sorted_names hds, ok_bind, hequal, ok_bind, if_pos rfl]
  rfl

/-- Nothing is said of the orders, so what is found are the dimensions whose bounds differ. -/
theorem Follows.validate_of_short (hm : m.Follows h p) (hp : p.Fits w h)
    (hshort : ∀ d ∈ w.differing w', w.BoundsShort w' d) : m.validate w' =
      .ok ((w.differing w').map fun d => mismatch d (w.bounds.get d) (w'.bounds.get d)) := by
  obtain ⟨os, hos, htable⟩ := hm.exists_orders hp
  have hbounds : Dim.all.mapM (m.boundError w') = .ok (Dim.all.map fun d =>
      if w.bounds.get d = w'.bounds.get d then none
      else some (mismatch d (w.bounds.get d) (w'.bounds.get d))) :=
    mapM_eq_map fun d _ => hm.boundError_of_short hp fun hne => hshort d (Workload.mem_differing.mpr hne)
  have horders : ∀ e ∈ os.map fun e => (Value.int e.2, Value.list (names e.1)),
      orderError e.1 e.2 = .ok none :=
    List.forall_mem_map.mpr fun e he => orderError_eq_none (hos e he) _
  have hnone : ((os.map fun e => (Value.int e.2, Value.list (names e.1))).map
      fun _ => (none : Option String)).filterMap id = [] :=
    List.filterMap_eq_nil_iff.mpr (List.forall_mem_map.mpr fun _ _ => rfl)
  rw [validate, hbounds, ok_bind, htable, Value.entries, ok_bind,
    mapM_eq_map (g := fun _ => none) horders, ok_bind, List.filterMap_append, hnone, List.append_nil,
    List.filterMap_map, Workload.differing, ← List.filterMap_eq_map, List.filterMap_filter]
  refine congrArg Except.ok (List.filterMap_congr fun d _ => ?_)
  by_cases he : w.bounds.get d = w'.bounds.get d <;> simp [he]

/-- Where a bound that is to be shown is too long, the checks come to no result. -/
theorem Follows.validate_of_long (hm : m.Follows h p) (hp : p.Fits w h)
    (hd : d ∈ w.differing w') (hlong : ¬ w.BoundsShort w' d) :
    m.validate w' = .error (.unsupported .value) := by
  have herror := hm.boundError_of_long hp (Workload.mem_differing.mp hd) hlong
  rw [validate]
  -- The first dimension that fails does so for the same reason.
  rcases mapM_cases (m.boundError w') Dim.all with ⟨found, hfound⟩ | ⟨_, d', _, fault, -, hd', hall, -⟩
  · obtain ⟨y, -, hy⟩ := exists_of_forall₂ (mapM_eq_ok.mp hfound) (Dim.mem_all d)
    rw [herror] at hy
    cases hy
  · rw [hall, error_bind]
    by_cases hshort : w.bounds.get d' ≠ w'.bounds.get d' → w.BoundsShort w' d'
    · rw [hm.boundError_of_short hp hshort] at hd'
      cases hd'
    · obtain ⟨hne, hlong'⟩ := Classical.not_imp.mp hshort
      rw [hm.boundError_of_long hp hne hlong', Except.error.injEq] at hd'
      rw [hd']

theorem Follows.validate_eq_nil_iff (hm : m.Follows h p) (hp : p.Fits w h) :
    m.validate w' = .ok [] ↔ w.bounds = w'.bounds := by
  rw [← Workload.differing_eq_nil_iff]
  constructor
  · intro hnil
    by_cases hshort : ∀ d ∈ w.differing w', w.BoundsShort w' d
    · rw [hm.validate_of_short hp hshort, Except.ok.injEq] at hnil
      exact List.map_eq_nil_iff.mp hnil
    · obtain ⟨d, hd⟩ := not_forall.mp hshort
      obtain ⟨hd, hlong⟩ := Classical.not_imp.mp hd
      rw [hm.validate_of_long hp hd hlong] at hnil
      cases hnil
  · intro hnone
    have hshort : ∀ d ∈ w.differing w', w.BoundsShort w' d := by simp [hnone]
    rw [hm.validate_of_short hp hshort, hnone]
    rfl

/-- Nothing is found in a mapping that records a member of the mapspace of the workload. -/
theorem Follows.validate_eq_nil (hm : m.Follows h p) (hp : p.Fits w h) : m.validate w = .ok [] :=
  (hm.validate_eq_nil_iff hp).mpr rfl

end Limited

end Mapping

namespace MapSpace

/-- The sample with a smaller and a larger extent. -/
def otherWorkload : Workload := { sampleWorkload with bounds := ⟨1, 1, 3, 2, 1, 6, 20⟩ }

end MapSpace

end LoopTiling
