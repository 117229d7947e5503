import LoopTiling.Proofs.FactorTable.Columns
import LoopTiling.Proofs.FactorTable.Refusals
import LoopTiling.Proofs.Pins

/-!
# Pruned dimensions and factors that are always one

What is pruned at a level is read off the bound of a dimension and its pin at that level. A pin at another
level can leave a dimension no factor but one as well: where the pins of a dimension make its whole bound,
every level that does not pin it has the factor one throughout the space. Besides the pruned dimensions
these are all.
-/
namespace LoopTiling

/-- The product of the factors that the levels pin for a dimension. -/
def Hierarchy.pinnedProduct (h : Hierarchy) (d : Dim) : ℤ :=
  ((h.levels.filterMap fun l => l.factor? d).map Numeral.toInt).prod

/-- Whether a level pins the factor of a dimension to one. -/
def Level.PinsToOne (l : Level) (d : Dim) : Prop := ∃ n, l.factor? d = some n ∧ n.toInt = 1

namespace Hierarchy

variable {h : Hierarchy} {d : Dim} {k : ℕ} {l : Level}

theorem lookup_natPins (hl : h.levels[k]? = some l) :
    (FactorTable.natPins (h.pinsOf d)).lookup k = (l.factor? d).map fun n => n.toInt.toNat := by
  have hkeys : ((FactorTable.natPins (h.pinsOf d)).map Prod.fst).Nodup := by
    rw [FactorTable.natPins, List.map_map]
    exact h.nodup_pinsOf d
  cases hn : l.factor? d with
  | some n =>
    have hmem : (k, n) ∈ h.pinsOf d := mem_pinsOf.mpr ⟨l, hl, hn⟩
    exact (lookup_eq_some_iff_mem hkeys).mpr (List.mem_map.mpr ⟨(k, n), hmem, rfl⟩)
  | none =>
    rw [Option.map_none, List.lookup_eq_none_iff]
    intro p hp
    obtain ⟨⟨i, n⟩, hmem, rfl⟩ := List.mem_map.mp hp
    obtain ⟨l', hl', hn'⟩ := mem_pinsOf.mp hmem
    rw [bne_iff_ne]
    rintro rfl
    rw [hl, Option.some.injEq] at hl'
    rw [← hl', hn] at hn'
    cases hn'

theorem pinProduct_natPins (hpos : ∀ p ∈ h.pinsOf d, 0 < p.2.toInt) :
    (FactorTable.pinProduct (FactorTable.natPins (h.pinsOf d)) : ℤ) = h.pinnedProduct d := by
  have hwhole : ∀ p ∈ FactorTable.wholePins (h.pinsOf d), 0 < p.2 :=
    List.forall_mem_map.mpr hpos
  have hfactors : (h.pinsOf d).map Prod.snd = h.levels.filterMap fun l => l.factor? d := by
    conv_rhs => rw [← List.zipIdx_map_fst 0 h.levels, List.filterMap_map]
    rw [pinsOf, List.map_filterMap]
    simp only [Option.map_map, Function.comp_def, Option.map_id']
  rw [← FactorTable.toNats_wholePins, FactorTable.pinProduct_toNats hwhole, pinnedProduct, ← hfactors,
    FactorTable.wholePins, List.map_map, List.map_map]
  rfl

end Hierarchy

namespace MapSpace

variable {w : Workload} {h : Hierarchy} {d : Dim} {k : ℕ} {l : Level}

theorem mem_prunedAt_iff (hprunes : h.prunes = true) :
    d ∈ prunedAt w h l ↔ w.bounds.get d = 1 ∨ l.PinsToOne d := by
  rw [prunedAt, if_pos hprunes, List.mem_filter, and_iff_right (Dim.mem_all d), isUnit,
    Bool.or_eq_true, beq_iff_eq, beq_iff_eq, Option.map_eq_some_iff, Level.PinsToOne]

section Built

variable [Text.DigitLimit]

/-- Factors that fit a dimension are those of some member. -/
theorem exists_index_of_tiles (ha : Assembles w h) {fs : List ℕ} (hfs : Tiles w h d fs) :
    ∃ i < (layout w h).size, (assignmentOf w h i).factors.get d = fs := by
  have hmembers := bijOn_assignmentOf ha
  have hfirst := hmembers.mapsTo (Radix.volume_pos ha.partSizes_pos)
  have hother : ({ assignmentOf w h 0 with
      factors := .ofFn (Function.update (assignmentOf w h 0).factors.get d fs) } :
        Assignment).IsFor w h := by
    refine ⟨fun d' => ?_, hfirst.orders, hfirst.splits⟩
    rw [PerDim.get_ofFn]
    by_cases hd : d' = d
    · subst hd
      rwa [Function.update_self]
    · rw [Function.update_of_ne hd]
      exact hfirst.factors d'
  obtain ⟨i, hi, he⟩ := hmembers.surjOn hother
  refine ⟨i, hi, ?_⟩
  rw [he, PerDim.get_ofFn, Function.update_self]

/-- Whether the factor of a dimension at a level is one in every mapping of a space. -/
def AlwaysOne (m : MapSpace) (level : ℕ) (d : Dim) : Prop :=
  ∀ i < m.size, ∃ mapping, m.decode (.int i) = .ok mapping ∧
    recordedFactor mapping level d = .ok (.int 1)

theorem alwaysOne_layout_iff (ha : Assembles w h) (hk : k < h.levelCount) :
    (layout w h).AlwaysOne k d ↔ ∀ fs, Tiles w h d fs → fs[k]? = some 1 := by
  have hget {fs : List ℕ} (hfs : Tiles w h d fs) : fs[k]? = some (fs.getD k 1) := by
    rw [List.getElem?_eq_getElem (hfs.length ▸ hk), List.getD_eq_getElem _ _ (hfs.length ▸ hk)]
  constructor
  · intro hall fs hfs
    obtain ⟨i, hi, rfl⟩ := exists_index_of_tiles ha hfs
    obtain ⟨mapping, hdecode, hfactor⟩ := hall i hi
    obtain rfl := Except.ok.inj ((decode_layout ha hi).symm.trans hdecode)
    rw [recordedFactor_mappingOf _ _ _ hk, Except.ok.injEq, Value.int.injEq, Nat.cast_eq_one] at hfactor
    rw [hget hfs, hfactor]
  · intro hall i hi
    have hfs := ((bijOn_assignmentOf ha).mapsTo hi).factors d
    refine ⟨_, decode_layout ha hi, ?_⟩
    rw [recordedFactor_mappingOf _ _ _ hk, Option.some.inj ((hget hfs).symm.trans (hall _ hfs))]
    rfl

/-- The factor of a dimension at a level is one throughout exactly if the dimension is unit there, or free
while its pins make the whole bound. -/
theorem alwaysOne_iff (ha : Assembles w h) (hl : h.levels[k]? = some l) :
    (layout w h).AlwaysOne k d ↔ (w.bounds.get d = 1 ∨ l.PinsToOne d) ∨
      l.factor? d = none ∧ h.pinnedProduct d = w.bounds.get d := by
  have hk : k < h.levelCount := (List.getElem?_eq_some_iff.mp hl).1
  have haccepts := ha.accepts d
  have hfit := FactorTable.pinsFit_natPins (h.nodup_pinsOf d) haccepts.level_lt haccepts.factor_pos
  have hsome := haccepts.exists_isFactorization (h.nodup_pinsOf d)
  rw [alwaysOne_layout_iff ha hk]
  simp only [tiles_iff]
  rw [FactorTable.forall_factor_eq_one_iff haccepts.bound_pos hfit hsome hk,
    Hierarchy.lookup_natPins hl, ← Hierarchy.pinProduct_natPins haccepts.factor_pos, Nat.cast_inj,
    Option.map_eq_none_iff, Option.map_eq_some_iff]
  have hpin : (∃ n, l.factor? d = some n ∧ n.toInt.toNat = 1) ↔ l.PinsToOne d :=
    exists_congr fun n => and_congr_right fun _ => by omega
  -- A bound of one leaves nothing to a pin but one, and nothing to the product of the pins.
  have hunit (hb : w.bounds.get d = 1) : l.PinsToOne d ∨ l.factor? d = none ∧
      FactorTable.pinProduct (FactorTable.natPins (h.pinsOf d)) = w.bounds.get d := by
    cases hn : l.factor? d with
    | some n =>
      have hmem : (k, n) ∈ h.pinsOf d := Hierarchy.mem_pinsOf.mpr ⟨l, hl, hn⟩
      have hdvd := haccepts.factor_dvd _ hmem
      rw [hb, Nat.cast_one] at hdvd
      exact .inl ⟨n, hn, Int.eq_one_of_dvd_one (haccepts.factor_pos _ hmem).le hdvd⟩
    | none =>
      have hdvd := haccepts.product_dvd
      rw [hb, Nat.dvd_one] at hdvd
      exact .inr ⟨rfl, hdvd.trans hb.symm⟩
  rw [hpin]
  constructor
  · rintro (hone | hwhole)
    · exact .inl (.inr hone)
    · exact .inr hwhole
  · rintro ((hb | hone) | hwhole)
    · exact hunit hb
    · exact .inl hone
    · exact .inr hwhole

/-- With pruning, the pruned dimensions of a level are those with the bound one and those that it pins to
one. The factor of a dimension there is one in every mapping exactly if it is pruned, or if the level does
not pin it and the pins of the other levels make its bound. -/
theorem pruned_always_one {m : MapSpace} (hm : build w h = .ok m) (hprunes : h.prunes = true)
    (hl : h.levels[k]? = some l) (d : Dim) : ∃ ds, m.pruned[k]? = some ds ∧
      (d ∈ ds ↔ w.bounds.get d = 1 ∨ l.PinsToOne d) ∧
      (m.AlwaysOne k d ↔ d ∈ ds ∨ l.factor? d = none ∧ h.pinnedProduct d = w.bounds.get d) := by
  obtain ⟨ha, rfl, -⟩ := build_eq_ok.mp hm
  refine ⟨prunedAt w h l, ?_, mem_prunedAt_iff hprunes, ?_⟩
  · rw [layout, List.getElem?_map, hl, Option.map_some]
  · rw [alwaysOne_iff ha hl, mem_prunedAt_iff hprunes]

end Built

theorem pruned_always_one_sample : ∃ m, build sampleWorkload (sampleHierarchy true none) = .ok m ∧
    m.size = 31104 ∧ ∃ ds, m.pruned[1]? = some ds ∧ Dim.k ∈ ds ∧ m.AlwaysOne 1 .k ∧
      Dim.q ∉ ds ∧ ¬ m.AlwaysOne 1 .q := by
  obtain ⟨m, hm, hsize⟩ := exists_build (w := sampleWorkload) (h := sampleHierarchy true none)
    (n := 31104) (by decide +kernel)
  have hlevel : (sampleHierarchy true none).levels[1]? =
      some { name := .text "PEArray", spatial := .flag true, factors := [(.k, .plain 1)] } := rfl
  obtain ⟨ds, hds, hmem, hone⟩ := pruned_always_one hm rfl hlevel .k
  obtain ⟨ds', hds', hmem', hone'⟩ := pruned_always_one hm rfl hlevel .q
  obtain rfl := Option.some.inj (hds.symm.trans hds')
  have hk : Dim.k ∈ ds := hmem.mpr (.inr ⟨.plain 1, rfl, rfl⟩)
  have hq : Dim.q ∉ ds := by
    rw [hmem']
    rintro (hb | ⟨n, hn, -⟩)
    · exact absurd hb (by decide)
    · cases hn
  refine ⟨m, hm, hsize, ds, hds, hk, hone.mpr (.inl hk), hq, ?_⟩
  rw [hone']
  rintro (hmem | ⟨-, hwhole⟩)
  · exact hq hmem
  · exact absurd hwhole (by decide)

/-- The pin of C at the first level makes its bound: at the second level C is not pruned, and its factor
is one all the same. -/
theorem unit_not_pruned : ∃ m, build samplePinWorkload samplePinHierarchy = .ok m ∧ m.size = 4 ∧
    samplePinHierarchy.prunes = true ∧ m.AlwaysOne 1 .c ∧
      ∃ ds, m.pruned[1]? = some ds ∧ Dim.c ∉ ds := by
  obtain ⟨m, hm, hsize⟩ := exists_build (w := samplePinWorkload) (h := samplePinHierarchy)
    (n := 4) (by decide +kernel)
  obtain ⟨ha, rfl, -⟩ := build_eq_ok.mp hm
  have hlevel : samplePinHierarchy.levels[1]? = some { name := .text "B" } := rfl
  refine ⟨_, hm, hsize, rfl, (alwaysOne_iff ha hlevel).mpr (.inr ⟨rfl, rfl⟩), _, rfl, ?_⟩
  decide

end MapSpace

end LoopTiling
