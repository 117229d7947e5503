import Mathlib.Algebra.Order.Ring.Int
import LoopTiling.Hierarchy
import LoopTiling.Proofs.Outcome
import LoopTiling.Workload

/-!
# What accepted workloads and hierarchies are

The readers of workloads, levels and hierarchies accept only positive bounds and pinned factors, starts of
orders without repetition, and splits that are numbers of dimensions and stand at spatial levels. What
they have accepted is valid in this sense, and so is the hierarchy that stands where none is given.
-/
namespace LoopTiling

def Workload.Valid (w : Workload) : Prop := ∀ d, 0 < w.bounds.get d

/-- A level with positive pinned factors, with different dimensions at the start of its orders, and with
a split only if it is spatial and the split is a number of dimensions. -/
structure Level.Valid (l : Level) : Prop where
  factor_pos : ∀ p ∈ l.factors, 0 < p.2.toInt
  lead_nodup : l.lead.Nodup
  split : ∀ split, l.split = some split →
    l.isSpatial ∧ 0 ≤ split.toInt ∧ split.toInt ≤ Dim.count

/-- A hierarchy of at least one level, all of them valid. -/
structure Hierarchy.Valid (h : Hierarchy) : Prop where
  levels_ne_nil : h.levels ≠ []
  levels : ∀ l ∈ h.levels, l.Valid

theorem Workload.pos_of_checkBound {name v : Value} {d : Dim} {n : ℕ}
    (hn : checkBound name d v = .ok n) : 0 < n := by
  unfold checkBound at hn
  split at hn
  · cases hn
  · split at hn
    · split at hn
      · cases hn
      · cases hn
        omega
    · cases hn

theorem Workload.valid_of_ofParts {name stride dilation path : Value} {bounds : PerDim Value}
    {w : Workload} (hw : ofParts name bounds stride dilation path = .ok w) : w.Valid := by
  simp only [ofParts, bind_eq_ok, pure_eq_ok, PerDim.ofFnM_eq_ok] at hw
  obtain ⟨bs, hbs, rfl⟩ := hw
  exact fun d => pos_of_checkBound (hbs d)

theorem Level.pos_of_checkFactor {name : Value} {e : Dim × Value} {p : Dim × Numeral}
    (hp : checkFactor name e = .ok p) : 0 < p.2.toInt := by
  unfold checkFactor at hp
  split at hp
  · split at hp
    · cases hp
    · cases hp
      dsimp only
      omega
  · cases hp

theorem Level.range_of_checkSplit {name spatial split : Value} {s : Numeral}
    (hs : checkSplit name spatial split = .ok (some s)) :
    spatial.truthy ∧ 0 ≤ s.toInt ∧ s.toInt ≤ Dim.count := by
  unfold checkSplit at hs
  split at hs
  · cases hs
  · split at hs
    · cases hs
    · split at hs
      · split at hs
        · cases hs
        · cases hs
          refine ⟨by simp_all, ?_⟩
          omega
      · cases hs

theorem Level.valid_of_ofParts {name spatial factors lead split : Value} {l : Level}
    (hl : ofParts name spatial factors lead split = .ok l) : l.Valid := by
  simp only [ofParts, bind_eq_ok, refuse_eq_ok, pure_eq_ok, mapM_eq_ok] at hl
  obtain ⟨es, -, named, -, fs, hfs, ds, -, hnodup, s, hs, rfl⟩ := hl
  refine ⟨fun p hp => ?_, not_not.mp hnodup, ?_⟩
  · obtain ⟨i, hi, rfl⟩ := List.getElem_of_mem hp
    have hi' : i < named.length := hfs.length_eq.symm ▸ hi
    exact pos_of_checkFactor ((List.forall₂_iff_get.mp hfs).2 i hi' hi)
  · rintro split rfl
    exact range_of_checkSplit hs

theorem Hierarchy.valid_of_ofLevels {levels : List Level} {prune : Value} {h : Hierarchy}
    (hlevels : ∀ l ∈ levels, l.Valid) (hh : ofLevels levels prune = .ok h) : h.Valid := by
  simp only [ofLevels, bind_eq_ok, refuse_eq_ok, pure_eq_ok] at hh
  obtain ⟨hne, _, -, rfl⟩ := hh
  exact ⟨by simpa using hne, hlevels⟩

theorem Level.valid_of_ofConfig {config : Value} {l : Level} (hl : ofConfig config = .ok l) :
    l.Valid := by
  simp only [ofConfig, bind_eq_ok] at hl
  obtain ⟨_, -, _, -, _, -, hparts⟩ := hl
  exact valid_of_ofParts hparts

theorem Hierarchy.valid_of_ofConfig {config : Value} {h : Hierarchy} (hh : ofConfig config = .ok h) :
    h.Valid := by
  simp only [ofConfig, bind_eq_ok] at hh
  obtain ⟨_, -, _, -, hh⟩ := hh
  split at hh
  · obtain ⟨levels, hlevels, hof⟩ := bind_eq_ok.mp hh
    refine valid_of_ofLevels (fun l hl => ?_) hof
    obtain ⟨_, -, hlevel⟩ := exists_of_forall₂ (mapM_eq_ok.mp hlevels).flip hl
    exact Level.valid_of_ofConfig hlevel
  · cases hh

theorem Hierarchy.valid_default : default.Valid := by
  refine ⟨List.cons_ne_nil _ _, fun l hl => ?_⟩
  have hplain : l.factors = [] ∧ l.lead = [] ∧ l.split = none := by
    simp only [default, defaultLevels, List.mem_cons, List.not_mem_nil, or_false] at hl
    rcases hl with rfl | rfl | rfl | rfl <;> exact ⟨rfl, rfl, rfl⟩
  obtain ⟨hfactors, hlead, hsplit⟩ := hplain
  exact ⟨by simp [hfactors], by simp [hlead], by simp [hsplit]⟩

end LoopTiling
