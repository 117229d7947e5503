import LoopTiling.Proofs.MapSpace.Parts
import LoopTiling.Proofs.Printing

/-!
# What a mapspace is built of

A mapspace is put together exactly if its three spaces are set up: then none of them is empty, and
their product is accepted. Everything that a built mapspace holds is determined by the workload and the
hierarchy (`layout`), and so is what an index names (`assignmentOf`): the part of an index in each space
is a digit to the sizes of the three spaces.
-/
namespace LoopTiling.MapSpace

variable {w : Workload} {h : Hierarchy}

def partSizes (w : Workload) (h : Hierarchy) : List ℕ :=
  [Radix.volume (FactorSpace.sizes (tablesOf w h)), OrderSpace.volume (patternsOf w h),
    Radix.volume ((rulesOf w h).map fun e => e.1.size)]

/-- The mapspace of a workload on a hierarchy, if it can be built. -/
def layout (w : Workload) (h : Hierarchy) : MapSpace where
  workload := w
  hierarchy := h
  factors := ⟨some (tablesOf w h)⟩
  orders := .ofPatterns (patternsOf w h)
  splits := .ofRules h.levelCount (rulesOf w h)
  pruned := h.levels.map (prunedAt w h)
  sizes := partSizes w h

/-- What an index names. -/
def assignmentOf (w : Workload) (h : Hierarchy) (i : ℕ) : Assignment where
  factors := FactorSpace.rowsAt (tablesOf w h) ((Radix.digits (partSizes w h) i).getD 0 0)
  orders := OrderSpace.ordersAt (patternsOf w h) ((Radix.digits (partSizes w h) i).getD 1 0)
  splits := SplitSpace.splitsAt (LevelTable.ofPlaces (rulesOf w h))
    ((Radix.digits (partSizes w h) i).getD 2 0)

theorem size_layout : (layout w h).size = Radix.volume (partSizes w h) := rfl

theorem ruleAt_size_pos (w : Workload) (h : Hierarchy) (l : Level) : 0 < (ruleAt w h l).size := by
  rw [ruleAt]
  cases l.split with
  | some split => exact Nat.one_pos
  | none =>
    have hle := length_prunedAt_le w h l
    simp only [SplitRule.size, Numeral.toInt_plain]
    omega

theorem volume_rules_pos (w : Workload) (h : Hierarchy) :
    0 < Radix.volume ((rulesOf w h).map fun e => e.1.size) := by
  apply Radix.volume_pos
  intro n hn
  obtain ⟨_, he, rfl⟩ := List.mem_map.mp hn
  obtain ⟨e, -, rfl⟩ := List.mem_map.mp he
  exact ruleAt_size_pos w h e.1

variable [Text.DigitLimit]

/-- What a mapspace needs to be put together. -/
structure Assembles (w : Workload) (h : Hierarchy) : Prop where
  accepts : AcceptsAll w h
  lead_nodup : ∀ l ∈ h.levels, l.lead.Nodup
  split_range : ∀ l ∈ h.levels, SplitInRange l

theorem Assembles.partSizes_pos (ha : Assembles w h) : ∀ n ∈ partSizes w h, 0 < n := by
  simp only [partSizes, List.forall_mem_cons]
  exact ⟨Radix.volume_pos ha.accepts.size_pos, OrderSpace.volume_pos _, volume_rules_pos w h,
    List.forall_mem_nil _⟩

theorem assemble_eq_ok {m : MapSpace} : assemble w h = .ok m ↔ Assembles w h ∧ m = layout w h := by
  simp only [assemble, bind_eq_ok, factorSpace_eq_ok, orderSpace_eq_ok, splitSpace_eq_ok,
    Counter.ofSizes_eq_ok, pure_eq_ok]
  constructor
  · rintro ⟨_, ⟨haccepts, rfl⟩, _, ⟨hlead, rfl⟩, _, ⟨hsplit, rfl⟩, n, hn, _, ⟨-, rfl⟩, rfl⟩
    rw [OrderSpace.size_ofPatterns, Except.ok.injEq] at hn
    subst hn
    refine ⟨⟨haccepts, hlead, hsplit⟩, ?_⟩
    rw [layout, partSizes, SplitSpace.size_ofRules, FactorSpace.size_some]
  · rintro ⟨ha, rfl⟩
    refine ⟨_, ⟨ha.accepts, rfl⟩, _, ⟨ha.lead_nodup, rfl⟩, _, ⟨ha.split_range, rfl⟩, _,
      OrderSpace.size_ofPatterns _, _, ⟨?_, rfl⟩, ?_⟩
    · rw [SplitSpace.size_ofRules, FactorSpace.size_some]
      exact ha.partSizes_pos
    · rw [layout, partSizes, SplitSpace.size_ofRules, FactorSpace.size_some]

/-- Whether the name of a mapspace and its sizes can be shown. -/
structure IsShown (m : MapSpace) : Prop where
  name : m.workload.name.text?.isSome
  size : Text.isShort m.size
  factors : Text.isShort m.sizesOf.1
  orders : Text.isShort m.sizesOf.2.1
  splits : Text.isShort m.sizesOf.2.2

theorem exists_builtLine_iff {m : MapSpace} : (∃ line, m.builtLine = .ok line) ↔ m.IsShown := by
  simp only [builtLine, bind_eq_ok, shown_eq_ok, pure_eq_ok]
  constructor
  · rintro ⟨_, name, hname, total, htotal, f, hf, o, ho, s, hs, -⟩
    have hshort {n : ℕ} {text : String} (h : Decimal.count? n = some text) : Text.isShort n := by
      rw [← Decimal.isSome_count?_iff, h]
      rfl
    exact ⟨by rw [hname]; rfl, hshort htotal, hshort hf, hshort ho, hshort hs⟩
  · rintro ⟨hname, htotal, hf, ho, hs⟩
    have hcount {n : ℕ} (h : Text.isShort n) : ∃ text, Decimal.count? n = some text :=
      Option.isSome_iff_exists.mp ((Decimal.isSome_count?_iff n).mpr h)
    obtain ⟨name, hname⟩ := Option.isSome_iff_exists.mp hname
    obtain ⟨total, htotal⟩ := hcount htotal
    obtain ⟨f, hf⟩ := hcount hf
    obtain ⟨o, ho⟩ := hcount ho
    obtain ⟨s, hs⟩ := hcount hs
    exact ⟨_, name, hname, total, htotal, f, hf, o, ho, s, hs, rfl⟩

/-- A mapspace is built if and only if it is put together and can be summed up. -/
theorem build_eq_ok {m : MapSpace} :
    build w h = .ok m ↔ Assembles w h ∧ m = layout w h ∧ (layout w h).IsShown := by
  simp only [build, checked, bind_eq_ok, assemble_eq_ok, pure_eq_ok, ← exists_builtLine_iff]
  constructor
  · rintro ⟨_, ⟨ha, rfl⟩, line, hline, rfl⟩
    exact ⟨ha, rfl, line, hline⟩
  · rintro ⟨ha, rfl, line, hline⟩
    exact ⟨_, ⟨ha, rfl⟩, line, hline, rfl⟩

theorem assignmentAt_layout (ha : Assembles w h) {i : ℕ} (hi : i < (layout w h).size) :
    (layout w h).assignmentAt (.int i) = .ok (assignmentOf w h i) := by
  have hplace : Value.placeIn "mapping" (.int i) (layout w h).size = .ok i :=
    Value.placeIn_natCast hi
  obtain ⟨hf, ho, hs, -⟩ := by simpa only [partSizes, List.forall_mem_cons] using ha.partSizes_pos
  have hfactors := FactorSpace.decode_some (Nat.mod_lt i hf)
  have horders (j : ℕ) := OrderSpace.decode_ofPatterns (Nat.mod_lt j ho)
  have hsplits (j : ℕ) := SplitSpace.decode_ofRules h.levelCount (Nat.mod_lt j hs)
  simp only [assignmentAt, hplace, ok_bind]
  simp only [layout, partSizes, Radix.digits, hfactors, horders, hsplits, ok_bind]
  rfl

theorem decode_layout (ha : Assembles w h) {i : ℕ} (hi : i < (layout w h).size) :
    (layout w h).decode (.int i) = .ok ((layout w h).mappingOf i (assignmentOf w h i)) := by
  have hplace : Value.placeIn "mapping" (.int i) (layout w h).size = .ok i :=
    Value.placeIn_natCast hi
  rw [decode, hplace, ok_bind, assignmentAt_layout ha hi]
  rfl

theorem exists_build {n : ℕ} (hsize : (build w h).toOption.map size = some n) :
    ∃ m, build w h = .ok m ∧ m.size = n := by
  cases hm : build w h with
  | error fault =>
    rw [hm] at hsize
    cases hsize
  | ok m =>
    rw [hm] at hsize
    exact ⟨m, rfl, Option.some.inj hsize⟩

def sampleWorkload : Workload :=
  ⟨.text "sample", ⟨1, 1, 4, 2, 1, 6, 1⟩, Workload.unitPair, Workload.unitPair, .text "sample"⟩

/-- Two temporal levels around two spatial ones, with pins, with starts of orders, one of them full, and
with a split at the outer spatial level if one is given. -/
def sampleHierarchy (prune : Bool) (split : Option Numeral) : Hierarchy where
  levels := [{ name := .text "RegisterFile", factors := [(.p, .plain 2)], lead := [.k] },
    { name := .text "PEArray", spatial := .flag true, factors := [(.k, .plain 1)] },
    { name := .text "Mesh", spatial := .flag true, split := split },
    { name := .text "DRAM", lead := Dim.all }]
  prune := .flag prune

end LoopTiling.MapSpace
