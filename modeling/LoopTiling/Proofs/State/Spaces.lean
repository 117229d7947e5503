import LoopTiling.Proofs.State.Orders
import LoopTiling.Proofs.State.Splits

/-!
# Objects answer like the spaces of what they hold

A space of orders or of splits that calls have set up keeps its levels in the order in which they
came, in several parts. It has the size and the members of the space that has what is asked for as
one table in ascending order, and where it has none it refuses with the same fault.
-/
namespace LoopTiling

/-- A level below all those of a table has nothing there. -/
theorem LevelTable.find?_eq_none {α : Type} {level : ℤ} {t : LevelTable α}
    (h : ∀ e ∈ t, level < e.1.toInt) : t.find? level = none := by
  induction t with
  | nil => rfl
  | cons e t ih =>
    rw [List.forall_mem_cons] at h
    rw [find?, if_neg h.1.ne', ih h.2]

namespace OrderState

variable {s : OrderState} {u : Setup Numeral (List Dim × List Dim)} {index : Value}

def HoldsFrom (s : OrderState) (k : ℤ) (t : LevelTable OrderPattern) : Prop :=
  ∀ level, k ≤ level → s.patterns.at? level = LevelTable.find? level t ∧
    s.sizes.at? level = (LevelTable.find? level t).map OrderPattern.size

theorem HoldsFrom.tail {l : Numeral} {p : OrderPattern} {t : LevelTable OrderPattern}
    (h : HoldsFrom s l.toInt ((l, p) :: t)) : HoldsFrom s (l.toInt + 1) t := by
  intro level hlevel
  have hne : l.toInt ≠ level := by omega
  have hat := h level (by omega)
  rwa [LevelTable.find?, if_neg hne] at hat

theorem sizesFrom_of_absent {k : ℤ} (h : s.patterns.at? k = none) (n : ℕ) :
    s.sizesFrom (n + 1) k = .error (.orderMissing (.int k)) := by
  rw [sizesFrom, patternAt, h]
  rfl

/-- Reading levels one after the other finds the patterns of an ascending table, or refuses the
first level that is not there. -/
theorem HoldsFrom.patternsFrom {n : ℕ} {k : ℤ} {t : LevelTable OrderPattern} (hs : HoldsFrom s k t)
    (ht : t.Ascending) (habove : ∀ e ∈ t, k ≤ e.1.toInt) :
    (∃ ps, OrderSpace.patternsFrom (k + n) k t = .ok ps ∧ ps.length = n ∧ Covers s k ps) ∨
      ∃ fault, OrderSpace.patternsFrom (k + n) k t = .error fault ∧
        s.sizesFrom n k = .error fault := by
  -- The table begins at level `k` or above it: its first entry is for that level, or the level is
  -- missing.
  induction n generalizing k t with
  | zero =>
    refine .inl ⟨[], ?_, rfl, trivial⟩
    cases t <;> simp [OrderSpace.patternsFrom]
  | succ n ih =>
    have hlt : k < k + (n + 1 : ℕ) := by omega
    obtain ⟨hpattern, hsize⟩ := hs k le_rfl
    cases t with
    | nil => exact .inr ⟨_, if_pos hlt, sizesFrom_of_absent hpattern n⟩
    | cons e t =>
      obtain ⟨l, p⟩ := e
      obtain ⟨hbelow, ht⟩ := List.pairwise_cons.mp ht
      have hle : k ≤ l.toInt := habove _ List.mem_cons_self
      rcases hle.eq_or_lt with rfl | hgap
      · rw [LevelTable.find?, if_pos rfl] at hpattern hsize
        have hcount : l.toInt + (n + 1 : ℕ) = l.toInt + 1 + n := by omega
        rw [OrderSpace.patternsFrom, if_pos hlt, if_pos rfl, hcount]
        rcases ih hs.tail ht fun e he => Int.add_one_le_iff.mpr (hbelow e he) with
          ⟨ps, hps, hlen, hcovers⟩ | ⟨fault, herr, hsizes⟩
        · refine .inl ⟨p :: ps, ?_, congrArg (· + 1) hlen, hpattern, hsize, hcovers⟩
          rw [hps]
          rfl
        · refine .inr ⟨fault, ?_, ?_⟩
          · rw [herr]
            rfl
          · rw [sizesFrom, patternAt_of_at? hpattern, ok_bind, Entries.get_of_at? hsize, ok_bind,
              hsizes]
            rfl
      · have habsent : LevelTable.find? k ((l, p) :: t) = none :=
          LevelTable.find?_eq_none
            (List.forall_mem_cons.mpr ⟨hgap, fun e he => hgap.trans (hbelow e he)⟩)
        rw [habsent] at hpattern
        refine .inr ⟨_, ?_, sizesFrom_of_absent hpattern n⟩
        rw [OrderSpace.patternsFrom, if_pos hlt, if_neg hgap.ne']

/-- The space that has the patterns that have been asked for. -/
def spaceOf (u : Setup Numeral (List Dim × List Dim)) : OrderSpace :=
  ⟨u.base, u.levels.map fun e => (e.1, leadPattern e.2)⟩

theorem Represents.holdsFrom (hs : Represents s u) (hu : u.levels.Ascending) (k : ℤ) :
    HoldsFrom s k (spaceOf u).patterns := by
  intro level _
  rw [spaceOf, LevelTable.find?_map, (hs.at? hu level).1, (hs.at? hu level).2, Option.map_map]
  exact ⟨rfl, rfl⟩

theorem Represents.perm_of_covers (hs : Represents s u) (hu : reading.Consistent u) {k : ℤ}
    {ps : List OrderPattern} (h : Covers s k ps) :
    ∀ p ∈ ps, (p.baked ++ p.free).Perm Dim.all := by
  induction ps generalizing k with
  | nil => exact List.forall_mem_nil _
  | cons p ps ih =>
    obtain ⟨hpattern, -, hrest⟩ := h
    refine List.forall_mem_cons.mpr ⟨?_, ih hrest⟩
    rw [(hs.at? hu.ascending k).1, Option.map_eq_some_iff] at hpattern
    obtain ⟨e, he, rfl⟩ := hpattern
    exact perm_leadPattern hu he

theorem nonneg_of_mem (hu : reading.Consistent u) :
    ∀ e ∈ (spaceOf u).patterns, 0 ≤ e.1.toInt := by
  intro e he
  obtain ⟨f, hf, rfl⟩ := List.mem_map.mp he
  obtain ⟨_, _, l, hread, hl⟩ := hu.asked f hf
  obtain ⟨hlevel, -⟩ := readLevel_eq_ok.mp hread
  rw [← hl]
  exact (checkLevel_eq_ok.mp hlevel).2.1

/-- A space has all patterns that have been asked for, or it has no size since a level is missing.
-/
theorem Represents.allPatterns (hs : Represents s u) (hu : reading.Consistent u) :
    (∃ ps, (spaceOf u).allPatterns = .ok ps ∧ ps.length = s.levelCount.toInt.toNat ∧
        Covers s 0 ps) ∨
      ∃ fault, (spaceOf u).allPatterns = .error fault ∧ s.size = .error fault := by
  have hbase : (spaceOf u).levelCount = s.levelCount := hs.levelCount.symm
  rw [OrderSpace.allPatterns, hbase, size]
  generalize s.levelCount.toInt = count
  rcases lt_or_ge count 0 with hneg | hpos
  · refine .inl ⟨[], ?_, by rw [Int.toNat_of_nonpos hneg.le]; rfl, trivial⟩
    cases (spaceOf u).patterns <;> simp [OrderSpace.patternsFrom, hneg.not_gt]
  · obtain ⟨n, rfl⟩ := Int.eq_ofNat_of_zero_le hpos
    have hasc : (spaceOf u).patterns.Ascending := List.pairwise_map.mpr hu.ascending
    have hcases := (hs.holdsFrom hu.ascending 0).patternsFrom (n := n) hasc (nonneg_of_mem hu)
    rw [zero_add] at hcases
    refine hcases.imp_right ?_
    rintro ⟨fault, herr, hsizes⟩
    refine ⟨fault, herr, ?_⟩
    rw [Int.toNat_natCast, hsizes]
    rfl

theorem Represents.size_eq (hs : Represents s u) (hu : reading.Consistent u) :
    s.size = (spaceOf u).size := by
  rcases hs.allPatterns hu with ⟨ps, hps, hlen, hcovers⟩ | ⟨fault, herr, hsize⟩
  · rw [size_of_covers hlen hcovers, OrderSpace.size, hps]
    rfl
  · rw [hsize, OrderSpace.size, herr]
    rfl

theorem Represents.decode_eq (hs : Represents s u) (hu : reading.Consistent u) (index : Value) :
    s.decode index = (spaceOf u).decode index := by
  rcases hs.allPatterns hu with ⟨ps, hps, hlen, hcovers⟩ | ⟨fault, herr, hsize⟩
  · have hall := hs.perm_of_covers hu hcovers
    rw [decode, size_of_covers hlen hcovers, OrderSpace.decode, hps, ok_bind, ok_bind, ← hlen]
    simp only [hcovers.ordersFrom hall]
    rfl
  · rw [decode, hsize, OrderSpace.decode, herr]
    rfl

theorem Represents.ascending_patterns (hs : Represents s u) (hu : u.levels.Ascending) :
    s.patterns.ascending = (spaceOf u).patterns := by
  obtain ⟨t, hperm, hpatterns, -⟩ := hs.entries
  rw [hpatterns]
  exact Entries.ascending_eq_of_perm (hperm.map _) (List.pairwise_map.mpr hu)

end OrderState

namespace SplitState

variable {s : SplitState} {u : Setup Numeral SplitRule}

def spaceOf (u : Setup Numeral SplitRule) : SplitSpace := ⟨u.base, u.levels⟩

theorem Represents.size_eq (hs : Represents s u) : s.size = (spaceOf u).size := hs.size

theorem Represents.decode_eq (hs : Represents s u) (hu : u.levels.Ascending) (index : Value) :
    s.decode index = (spaceOf u).decode index := by
  rw [SplitState.decode, hs.size_eq, SplitSpace.decode, hs.ascending_isFixed hu]
  simp only [hs.splitsFrom hu fun _ he => he]
  rfl

end SplitState

end LoopTiling
