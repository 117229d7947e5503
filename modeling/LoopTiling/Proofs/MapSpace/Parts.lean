import LoopTiling.MapSpace
import LoopTiling.Proofs.FactorTable.Acceptance
import LoopTiling.Proofs.Space.Factors
import LoopTiling.Proofs.Space.Orders
import LoopTiling.Proofs.Space.Splits

/-!
# Setting up the three spaces

The spaces of a workload on a hierarchy are set up exactly if every dimension has an accepted factor
table, no level puts a dimension in front twice, and every pinned split of a spatial level is a number
of dimensions. What is set up is one factor table for each dimension, one pattern for each level and
one rule for each spatial level.
-/
namespace LoopTiling

namespace Hierarchy

/-- The spatial levels with their places, ascending. -/
def spatialLevels (h : Hierarchy) : List (Level × ℕ) :=
  h.levels.zipIdx.filter fun e => e.1.isSpatial

theorem mem_pinsOf {h : Hierarchy} {d : Dim} {i : ℕ} {f : Numeral} :
    (i, f) ∈ h.pinsOf d ↔ ∃ l, h.levels[i]? = some l ∧ l.factor? d = some f := by
  simp only [pinsOf, List.mem_filterMap, Option.map_eq_some_iff, Prod.exists, Prod.mk.injEq,
    List.mem_zipIdx_iff_getElem?]
  constructor
  · rintro ⟨l, i', hl, f', hf, rfl, rfl⟩
    exact ⟨l, hl, hf⟩
  · rintro ⟨l, hl, hf⟩
    exact ⟨l, i, hl, f, hf, rfl, rfl⟩

theorem pinsOf_level_lt {h : Hierarchy} {d : Dim} : ∀ p ∈ h.pinsOf d, p.1 < h.levelCount := by
  intro p hp
  obtain ⟨l, hl, -⟩ := mem_pinsOf.mp hp
  exact (List.getElem?_eq_some_iff.mp hl).1

theorem nodup_pinsOf (h : Hierarchy) (d : Dim) : ((h.pinsOf d).map Prod.fst).Nodup := by
  have hplaces : h.levels.zipIdx.Pairwise fun e e' => e.2 ≠ e'.2 := by
    rw [← List.pairwise_map (f := Prod.snd), List.zipIdx_map_snd]
    exact List.nodup_range'
  rw [List.Nodup, List.pairwise_map, pinsOf, List.pairwise_filterMap]
  refine hplaces.imp fun {e e'} hne p hp p' hp' he => hne ?_
  obtain ⟨f, -, rfl⟩ := Option.map_eq_some_iff.mp hp
  obtain ⟨f', -, rfl⟩ := Option.map_eq_some_iff.mp hp'
  exact he

end Hierarchy

namespace MapSpace

variable {w : Workload} {h : Hierarchy}

/-- What the orders of a level start with: its pruned dimensions, then those that the user puts in
front. -/
def startOf (w : Workload) (h : Hierarchy) (l : Level) : List Dim :=
  prunedAt w h l ++ l.lead.filter (· ∉ prunedAt w h l)

/-- Whether the split that a level pins, if it is spatial, is a number of dimensions. -/
def SplitInRange (l : Level) : Prop :=
  l.isSpatial → ∀ split, l.split = some split → 0 ≤ split.toInt ∧ split.toInt ≤ Dim.count

def patternAt (w : Workload) (h : Hierarchy) (l : Level) : OrderPattern :=
  .ofLead (prunedAt w h l) l.lead

def ruleAt (w : Workload) (h : Hierarchy) (l : Level) : SplitRule :=
  match l.split with
  | some split => .fixed split
  | none => .free (.plain (prunedAt w h l).length)

def ruleAt? (w : Workload) (h : Hierarchy) (l : Level) : Option SplitRule :=
  if l.isSpatial then some (ruleAt w h l) else none

def patternsOf (w : Workload) (h : Hierarchy) : List OrderPattern := h.levels.map (patternAt w h)

def rulesOf (w : Workload) (h : Hierarchy) : List (SplitRule × ℕ) :=
  h.spatialLevels.map fun e => (ruleAt w h e.1, e.2)

theorem nodup_prunedAt (w : Workload) (h : Hierarchy) (l : Level) : (prunedAt w h l).Nodup := by
  rw [prunedAt]
  split
  · exact Dim.nodup_all.filter _
  · exact List.nodup_nil

theorem length_prunedAt_le (w : Workload) (h : Hierarchy) (l : Level) :
    (prunedAt w h l).length ≤ Dim.count := by
  rw [prunedAt]
  split
  · exact List.length_filter_le _ _
  · exact Nat.zero_le _

theorem forall_mem_zipIdx {α : Type} {xs : List α} (P : α → Prop) :
    (∀ e ∈ xs.zipIdx, P e.1) ↔ ∀ x ∈ xs, P x := by
  conv_rhs => rw [← List.zipIdx_map_fst 0 xs, List.forall_mem_map]

theorem checkLevel_int {count i : ℕ} (hi : i < count) :
    checkLevel (.plain count) (.int i) = .ok (.plain i) := by
  have hnot : ¬ ((Numeral.plain i).toInt < 0 ∨ (Numeral.plain count).toInt ≤ (Numeral.plain i).toInt) := by
    simp only [Numeral.toInt_plain]
    omega
  exact if_neg hnot

theorem checkLevelCount_int (count : ℕ) : checkLevelCount (.int count) = .ok (.plain count) := by
  have hnot : ¬ (Numeral.plain count).toInt < 0 := by
    simp only [Numeral.toInt_plain]
    omega
  rw [checkLevelCount, Value.numeral?]
  exact if_neg hnot

theorem checkDimCount_eq_ok {fault : Fault} {n n' : Numeral} :
    SplitSpace.checkDimCount fault n.toValue = .ok n' ↔
      (0 ≤ n.toInt ∧ n.toInt ≤ Dim.count) ∧ n' = n := by
  rw [SplitSpace.checkDimCount, Value.numeral?_toValue]
  by_cases hn : n.toInt < 0 ∨ (Dim.count : ℤ) < n.toInt
  · simp only [if_pos hn, reduceCtorEq, false_iff, not_and]
    omega
  · have hrange : 0 ≤ n.toInt ∧ n.toInt ≤ Dim.count := by omega
    simp only [if_neg hn, Except.ok.injEq, hrange, true_and, and_self, eq_comm (a := n)]

theorem setOrder_eq_ok {count : ℕ} (t : LevelTable OrderPattern) (e : Level × ℕ) (s : OrderSpace)
    (he : e.2 < count) : setOrder w h ⟨.plain count, t⟩ e = .ok s ↔ e.1.lead.Nodup ∧
      s = ⟨.plain count, t.set (.plain e.2) (patternAt w h e.1)⟩ := by
  simp only [setOrder, OrderSpace.setLevel, checkLevel_int he, ok_bind, refuse_eq_ok,
    pure_eq_ok, not_not, nodup_prunedAt, true_and, eq_comm (b := s)]
  rfl

/-- The space of orders is set up exactly if no level puts a dimension in front twice. -/
theorem orderSpace_eq_ok {s : OrderSpace} : orderSpace w h = .ok s ↔
    (∀ l ∈ h.levels, l.lead.Nodup) ∧ s = .ofPatterns (patternsOf w h) := by
  have hfold := LevelTable.foldlM_zipIdx_eq_ok (OrderSpace.mk (.plain h.levelCount))
    (fun l => some (patternAt w h l)) setOrder_eq_ok h.levels 0 (Nat.zero_add _).le [] (by simp) s
  have hvalues : (h.levels.zipIdx.filterMap fun e => (some (patternAt w h e.1)).map (·, e.2)) =
      (patternsOf w h).zipIdx := by
    rw [patternsOf, List.zipIdx_map]
    exact congrFun List.filterMap_eq_map _
  have hcount : (patternsOf w h).length = h.levelCount := by rw [patternsOf, List.length_map]; rfl
  rw [orderSpace, OrderSpace.ofLevelCount, checkLevelCount_int, ok_bind]
  rw [hvalues, List.nil_append, forall_mem_zipIdx fun l : Level => l.lead.Nodup] at hfold
  rw [OrderSpace.ofPatterns, hcount]
  exact hfold

theorem setSplit_eq_ok {count : ℕ} (t : LevelTable SplitRule) (e : Level × ℕ) (s : SplitSpace)
    (he : e.2 < count) : setSplit w h ⟨.plain count, t⟩ e = .ok s ↔ SplitInRange e.1 ∧
      s = ⟨.plain count, (ruleAt? w h e.1).elim t fun rule => t.set (.plain e.2) rule⟩ := by
  rw [setSplit, ruleAt?, SplitInRange]
  by_cases hs : e.1.isSpatial
  · rw [if_pos hs, if_pos hs, ruleAt]
    cases hsplit : e.1.split with
    | some split =>
      simp only [SplitSpace.setFixed, checkLevel_int he, ok_bind, bind_eq_ok,
        checkDimCount_eq_ok, pure_eq_ok, Option.elim_some, Option.some.injEq, forall_eq']
      constructor
      · rintro ⟨n, ⟨hrange, rfl⟩, rfl⟩
        exact ⟨fun _ => hrange, rfl⟩
      · rintro ⟨hrange, rfl⟩
        exact ⟨split, ⟨hrange hs, rfl⟩, rfl⟩
    | none =>
      have hunit : SplitSpace.checkDimCount (.unitRange (.int e.2) (.int (prunedAt w h e.1).length))
          (.int (prunedAt w h e.1).length) = .ok (.plain (prunedAt w h e.1).length) := by
        have hle := length_prunedAt_le w h e.1
        have hrange : 0 ≤ (Numeral.plain (prunedAt w h e.1).length).toInt ∧
            (Numeral.plain (prunedAt w h e.1).length).toInt ≤ Dim.count := by
          rw [Numeral.toInt_plain]
          omega
        exact (checkDimCount_eq_ok (n := .plain (prunedAt w h e.1).length)).mpr ⟨hrange, rfl⟩
      simp only [SplitSpace.setFree, checkLevel_int he, ok_bind, hunit, pure_eq_ok,
        Option.elim_some, reduceCtorEq, false_implies, implies_true, true_and, eq_comm (a := s)]
  · rw [if_neg hs, if_neg hs]
    simp only [hs, Bool.false_eq_true, false_implies, true_and, Option.elim_none, Except.ok.injEq,
      eq_comm (a := s)]

theorem rulesOf_eq_filterMap (w : Workload) (h : Hierarchy) :
    rulesOf w h = h.levels.zipIdx.filterMap fun e => (ruleAt? w h e.1).map (·, e.2) := by
  rw [rulesOf, Hierarchy.spatialLevels]
  generalize h.levels.zipIdx = es
  induction es with
  | nil => rfl
  | cons e es ih =>
    by_cases hs : e.1.isSpatial
    · have hrule : ruleAt? w h e.1 = some (ruleAt w h e.1) := if_pos hs
      rw [List.filterMap_cons_some (by rw [hrule]; rfl), List.filter_cons, if_pos hs, List.map_cons,
        ih]
    · have hrule : ruleAt? w h e.1 = none := if_neg hs
      rw [List.filterMap_cons_none (by rw [hrule]; rfl), List.filter_cons, if_neg hs, ih]

/-- The space of splits is set up exactly if the pinned splits of spatial levels are in range. -/
theorem splitSpace_eq_ok {s : SplitSpace} : splitSpace w h = .ok s ↔
    (∀ l ∈ h.levels, SplitInRange l) ∧ s = .ofRules h.levelCount (rulesOf w h) := by
  have hfold := LevelTable.foldlM_zipIdx_eq_ok (SplitSpace.mk (.plain h.levelCount))
    (ruleAt? w h) setSplit_eq_ok h.levels 0 (Nat.zero_add _).le [] (by simp) s
  rw [splitSpace, SplitSpace.ofLevelCount, checkLevelCount_int, ok_bind]
  rw [← rulesOf_eq_filterMap, List.nil_append, forall_mem_zipIdx SplitInRange] at hfold
  exact hfold

def tablesOf (w : Workload) (h : Hierarchy) : PerDim FactorTable :=
  .ofFn fun d => .tableOf (w.bounds.get d) h.levelCount (h.pinsOf d)

def AcceptsAll [Text.DigitLimit] (w : Workload) (h : Hierarchy) : Prop :=
  ∀ d, FactorTable.Accepts (w.bounds.get d) h.levelCount (h.pinsOf d)

variable [Text.DigitLimit]

theorem AcceptsAll.size_pos (hw : AcceptsAll w h) :
    ∀ n ∈ FactorSpace.sizes (tablesOf w h), 0 < n := by
  intro n hn
  rw [FactorSpace.sizes_eq] at hn
  obtain ⟨d, -, rfl⟩ := List.mem_map.mp hn
  rw [tablesOf, PerDim.get_ofFn]
  exact (hw d).size_pos (h.nodup_pinsOf d)

/-- The space of factors is set up exactly if the pins of every dimension are accepted. -/
theorem factorSpace_eq_ok {s : FactorSpace} :
    factorSpace w h = .ok s ↔ AcceptsAll w h ∧ s = ⟨some (tablesOf w h)⟩ := by
  have htable (d : Dim) : h.pinTable d = FactorTable.pinValue (h.pinsOf d) := rfl
  have htabulate (tables : PerDim FactorTable) :
      FactorSpace.tabulate (w.bounds.map fun (n : ℕ) => .int n)
        (.ofFn fun _ => .int h.levelCount) (.ofFn h.pinTable) = .ok tables ↔
      AcceptsAll w h ∧ tables = tablesOf w h := by
    simp only [FactorSpace.tabulate, PerDim.ofFnM_eq_ok, FactorSpace.nameDim_eq_ok, PerDim.get_map,
      PerDim.get_ofFn, htable, FactorTable.ofValues_eq_ok, forall_and, AcceptsAll]
    refine and_congr_right fun _ => ⟨fun he => PerDim.ext_get fun d => ?_, ?_⟩
    · rw [he d, tablesOf, PerDim.get_ofFn]
    · rintro rfl d
      rw [tablesOf, PerDim.get_ofFn]
  simp only [factorSpace, FactorSpace.ofTables, bind_eq_ok, htabulate, Counter.ofSizes_eq_ok,
    pure_eq_ok]
  constructor
  · rintro ⟨_, ⟨haccepts, rfl⟩, _, -, rfl⟩
    exact ⟨haccepts, rfl⟩
  · rintro ⟨haccepts, rfl⟩
    exact ⟨_, ⟨haccepts, rfl⟩, _, ⟨haccepts.size_pos, rfl⟩, rfl⟩

end MapSpace

end LoopTiling
