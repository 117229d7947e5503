import LoopTiling.Proofs.FactorTable.Refusals
import LoopTiling.Proofs.MapSpace.Members
import LoopTiling.Proofs.Validity

/-!
# Which mapspaces can be built

Where whole numbers of any length can be shown, the mapspace of a valid workload on a valid hierarchy is
built if and only if every dimension has factors that agree with its pins. The checks of the factor
tables are together equivalent to this; everything after them goes through. The first dimension without
such factors is the one that the refusal names.
-/
namespace LoopTiling.MapSpace

variable {w : Workload} {h : Hierarchy}

theorem pos_of_mem_pinsOf (hh : h.Valid) {d : Dim} : ∀ p ∈ h.pinsOf d, 0 < p.2.toInt := by
  rintro ⟨i, f⟩ hp
  obtain ⟨l, hl, hf⟩ := Hierarchy.mem_pinsOf.mp hp
  obtain ⟨_, _, hsplit, -⟩ := List.lookup_eq_some_iff.mp hf
  have hmem : (d, f) ∈ l.factors := hsplit ▸ List.mem_append_right _ List.mem_cons_self
  exact (hh.levels l (List.mem_of_getElem? hl)).factor_pos (d, f) hmem

theorem lead_nodup_of_valid (hh : h.Valid) : ∀ l ∈ h.levels, l.lead.Nodup :=
  fun l hl => (hh.levels l hl).lead_nodup

theorem splitInRange_of_valid (hh : h.Valid) : ∀ l ∈ h.levels, SplitInRange l :=
  fun l hl _ split hs => ((hh.levels l hl).split split hs).2

section Unlimited

variable [limit : Text.DigitLimit]

/-- The pins of a dimension are accepted if and only if it has factors that agree with them. -/
theorem accepts_iff_exists_tiles (hlimit : limit.most? = none) (hw : w.Valid) (hh : h.Valid)
    (d : Dim) : FactorTable.Accepts (w.bounds.get d) h.levelCount (h.pinsOf d) ↔
      ∃ fs, Tiles w h d fs := by
  simp only [tiles_iff]
  exact FactorTable.accepts_iff (hw d) (List.length_pos_of_ne_nil hh.levels_ne_nil)
    (h.nodup_pinsOf d) (fun p _ => Text.isShort_of_unlimited hlimit p.1) Hierarchy.pinsOf_level_lt
    (pos_of_mem_pinsOf hh)

theorem isShown_of_unlimited (hlimit : limit.most? = none) (m : MapSpace) : m.IsShown where
  name := Value.isSome_text? hlimit _
  size := Text.isShort_of_unlimited hlimit _
  factors := Text.isShort_of_unlimited hlimit _
  orders := Text.isShort_of_unlimited hlimit _
  splits := Text.isShort_of_unlimited hlimit _

def namedTable (w : Workload) (h : Hierarchy) (d : Dim) : Except Fault FactorTable :=
  FactorSpace.nameDim d
    (FactorTable.ofValues (.int (w.bounds.get d)) (.int h.levelCount) (h.pinTable d))

theorem factorSpace_eq_bind (w : Workload) (h : Hierarchy) :
    factorSpace w h = PerDim.ofFnM (namedTable w h) >>= FactorSpace.ofTables := by
  simp only [factorSpace, FactorSpace.tabulate, PerDim.get_map, PerDim.get_ofFn]
  rfl

/-- A dimension is refused exactly if it has no factors that agree with its pins. -/
theorem namedTable_cases (hlimit : limit.most? = none) (hw : w.Valid) (hh : h.Valid) (d : Dim) :
    ((∃ fs, Tiles w h d fs) ∧ ∃ t, namedTable w h d = .ok t) ∨
      ((¬ ∃ fs, Tiles w h d fs) ∧ ∃ cause, namedTable w h d = .error (.inDimension d cause)) := by
  have htable : h.pinTable d = FactorTable.pinValue (h.pinsOf d) := rfl
  rw [← accepts_iff_exists_tiles hlimit hw hh, namedTable, htable]
  cases hof : FactorTable.ofValues (.int (w.bounds.get d)) (.int h.levelCount)
      (FactorTable.pinValue (h.pinsOf d)) with
  | ok t => exact .inl ⟨(FactorTable.ofValues_eq_ok.mp hof).1, t, rfl⟩
  | error fault =>
    have hnot : ¬ FactorTable.Accepts (w.bounds.get d) h.levelCount (h.pinsOf d) := by
      intro haccepts
      rw [FactorTable.ofValues_eq_ok.mpr ⟨haccepts, rfl⟩] at hof
      cases hof
    have hkind : fault.kind = .configuration := by
      rcases (FactorTable.failsOnly_pinValue _ _ _ fault hof).unshown with hcause | ⟨hlimited, -⟩
      · rw [Fault.kind_eq_causeKind hlimit, hcause]
      · exact absurd hlimit hlimited
    exact .inr ⟨hnot, fault, by rw [FactorSpace.nameDim, if_pos hkind]⟩

theorem build_eq_error (hlimit : limit.most? = none) (hw : w.Valid) (hh : h.Valid) {d : Dim}
    (hd : ¬ ∃ fs, Tiles w h d fs) (hfirst : ∀ d' : Dim, d'.index < d.index → ∃ fs, Tiles w h d' fs) :
    ∃ cause, build w h = .error (.inDimension d cause) := by
  have hcases := namedTable_cases hlimit hw hh
  obtain ⟨cause, herr⟩ : ∃ cause, namedTable w h d = .error (.inDimension d cause) :=
    ((hcases d).resolve_left fun hsat => hd hsat.1).2
  -- The traversal stops where a dimension fails: not before `d`, and not behind it either.
  have hfail : PerDim.ofFnM (namedTable w h) = .error (.inDimension d cause) := by
    rcases PerDim.ofFnM_cases (namedTable w h) with ⟨tables, htables⟩ | ⟨d', e, he, hall, hbefore⟩
    · rw [PerDim.ofFnM_eq_ok.mp htables d] at herr
      cases herr
    · rcases Nat.lt_trichotomy d'.index d.index with hlt | heq | hgt
      · obtain ⟨t, ht⟩ := ((hcases d').resolve_right fun hunsat => hunsat.1 (hfirst d' hlt)).2
        rw [ht] at he
        cases he
      · obtain rfl : d' = d := Dim.index_injective heq
        rw [hall, Except.error.inj (he.symm.trans herr)]
      · obtain ⟨t, ht⟩ := hbefore d hgt
        rw [ht] at herr
        cases herr
  refine ⟨cause, ?_⟩
  rw [build, assemble, factorSpace_eq_bind, hfail]
  rfl

theorem message_inDimension (hlimit : limit.most? = none) (d : Dim) (cause : Fault) :
    ∃ rest, (Fault.inDimension d cause).message? = some (s!"Dimension {d.name}: " ++ rest) := by
  obtain ⟨rest, hrest⟩ := Option.isSome_iff_exists.mp (Fault.isSome_sentence? hlimit cause)
  refine ⟨rest, ?_⟩
  simp [Fault.message?, Fault.sentence?, Fault.said, hrest, String.join]

/-- Where whole numbers of any length can be shown, a valid workload and a valid hierarchy have a
mapspace if and only if every dimension has factors that agree with its pins. If not, the configuration
is refused in the name of the first dimension that has none. The spaces of orders and splits and the
product are never refused, and no mapspace is empty. -/
theorem build_iff_exists_tiles (hlimit : limit.most? = none) (hw : w.Valid) (hh : h.Valid) :
    ((∃ m, build w h = .ok m) ↔ ∀ d, ∃ fs, Tiles w h d fs) ∧
      (∀ d, (¬ ∃ fs, Tiles w h d fs) → (∀ d' : Dim, d'.index < d.index → ∃ fs, Tiles w h d' fs) →
        ∃ fault rest, build w h = .error fault ∧ fault.kind = .configuration ∧
          fault.message? = some (s!"Dimension {d.name}: " ++ rest)) ∧
      (∃ orders, orderSpace w h = .ok orders) ∧
      (∃ splits, splitSpace w h = .ok splits) ∧
      (∀ factors orders splits, factorSpace w h = .ok factors → orderSpace w h = .ok orders →
        splitSpace w h = .ok splits → ∃ n axes, orders.size = .ok n ∧
          Counter.ofSizes [factors.size, n, splits.size] = .ok axes) ∧
      ∀ m, build w h = .ok m → 1 ≤ m.size := by
  have hassembles (haccepts : AcceptsAll w h) : Assembles w h :=
    ⟨haccepts, lead_nodup_of_valid hh, splitInRange_of_valid hh⟩
  have horders : orderSpace w h = .ok (.ofPatterns (patternsOf w h)) :=
    orderSpace_eq_ok.mpr ⟨lead_nodup_of_valid hh, rfl⟩
  have hsplits : splitSpace w h = .ok (.ofRules h.levelCount (rulesOf w h)) :=
    splitSpace_eq_ok.mpr ⟨splitInRange_of_valid hh, rfl⟩
  refine ⟨⟨?_, ?_⟩, ?_, ⟨_, horders⟩, ⟨_, hsplits⟩, ?_, ?_⟩
  · rintro ⟨m, hm⟩ d
    exact (accepts_iff_exists_tiles hlimit hw hh d).mp ((build_eq_ok.mp hm).1.accepts d)
  · intro hall
    have haccepts : AcceptsAll w h := fun d =>
      (accepts_iff_exists_tiles hlimit hw hh d).mpr (hall d)
    exact ⟨_, build_eq_ok.mpr ⟨hassembles haccepts, rfl, isShown_of_unlimited hlimit _⟩⟩
  · intro d hd hfirst
    obtain ⟨cause, herr⟩ := build_eq_error hlimit hw hh hd hfirst
    obtain ⟨rest, hrest⟩ := message_inDimension hlimit d cause
    exact ⟨_, rest, herr, Fault.kind_eq_causeKind hlimit _, hrest⟩
  · intro factors orders splits hfactors horders' hsplits'
    obtain ⟨haccepts, rfl⟩ := factorSpace_eq_ok.mp hfactors
    obtain rfl := Except.ok.inj (horders.symm.trans horders')
    obtain rfl := Except.ok.inj (hsplits.symm.trans hsplits')
    refine ⟨_, _, OrderSpace.size_ofPatterns _, Counter.ofSizes_eq_ok.mpr ⟨?_, rfl⟩⟩
    rw [SplitSpace.size_ofRules, FactorSpace.size_some]
    exact (hassembles haccepts).partSizes_pos
  · intro m hm
    obtain ⟨ha, rfl, -⟩ := build_eq_ok.mp hm
    exact Radix.volume_pos ha.partSizes_pos

end Unlimited

theorem build_iff_exists_tiles_sample :
    Workload.Valid sampleWorkload ∧ (sampleHierarchy true none).Valid ∧
      ∃ m, @build ⟨none⟩ sampleWorkload (sampleHierarchy true none) = .ok m := by
  have hw : Workload.Valid sampleWorkload := by
    intro d
    cases d <;> decide
  have hh : (sampleHierarchy true none).Valid := by
    have hpos : ∀ l ∈ (sampleHierarchy true none).levels, ∀ p ∈ l.factors, 0 < p.2.toInt := by
      decide
    have hlead : ∀ l ∈ (sampleHierarchy true none).levels, l.lead.Nodup := by decide
    have hsplit : ∀ l ∈ (sampleHierarchy true none).levels, l.split = none := by decide
    exact ⟨List.cons_ne_nil _ _, fun l hl => ⟨hpos l hl, hlead l hl, by simp [hsplit l hl]⟩⟩
  refine ⟨hw, hh, (@build_iff_exists_tiles _ _ ⟨none⟩ rfl hw hh).1.mpr fun d => ?_⟩
  cases d with
  | p => exact ⟨[2, 2, 1, 1], tiles_iff.mpr ⟨rfl, by decide, rfl, by decide⟩⟩
  | q => exact ⟨[2, 1, 1, 1], tiles_iff.mpr ⟨rfl, by decide, rfl, by decide⟩⟩
  | k => exact ⟨[6, 1, 1, 1], tiles_iff.mpr ⟨rfl, by decide, rfl, by decide⟩⟩
  | _ => exact ⟨[1, 1, 1, 1], tiles_iff.mpr ⟨rfl, by decide, rfl, by decide⟩⟩

end LoopTiling.MapSpace
