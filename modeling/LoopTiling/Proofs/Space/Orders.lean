import LoopTiling.Proofs.Index
import LoopTiling.Proofs.LevelTable
import LoopTiling.Proofs.Radix.Arrangement
import LoopTiling.Space.Orders

/-!
# The orders of a level and of all levels

The fixed and the free dimensions of a pattern make up all dimensions, so the ranks below the factorial
of the number of free ones number the orders that start with the fixed ones. The orders of all levels
are read from the digits of the index; a level with nothing free has one order, and taking no digit is
the same as taking one to the radix one.
-/
namespace LoopTiling

namespace OrderPattern

theorem nodup_append_filter {front ds : List Dim} (hfront : front.Nodup) (hds : ds.Nodup) :
    (front ++ ds.filter (· ∉ front)).Nodup := by
  refine List.nodup_append'.mpr ⟨hfront, hds.filter _, fun d hd hd' => ?_⟩
  exact of_decide_eq_true (List.mem_filter.mp hd').2 hd

theorem perm_ofLead {pruned lead : List Dim} (hp : pruned.Nodup) (hl : lead.Nodup) :
    ((ofLead pruned lead).baked ++ (ofLead pruned lead).free).Perm Dim.all := by
  have hbaked := nodup_append_filter hp hl
  simp only [ofLead]
  generalize pruned ++ lead.filter (· ∉ pruned) = baked at hbaked
  have hall := nodup_append_filter hbaked Dim.nodup_all
  refine (List.perm_ext_iff_of_nodup hall Dim.nodup_all).mpr fun d => ?_
  by_cases hd : d ∈ baked
  · simp [hd, Dim.mem_all]
  · simp [hd, Dim.mem_all]

variable {p : OrderPattern}

theorem length_free (hp : (p.baked ++ p.free).Perm Dim.all) :
    p.free.length = Dim.count - p.baked.length := by
  have hlen := hp.length_eq
  rw [List.length_append, Dim.length_all] at hlen
  omega

theorem size_pos (p : OrderPattern) : 0 < p.size := Radix.factorial_pos p.free.length

theorem orderAt_of_isEmpty (h : p.free.isEmpty) (rank : ℕ) : p.orderAt rank = p.baked := by
  rw [orderAt, List.isEmpty_iff.mp h]
  exact List.append_nil p.baked

/-- Every order that starts with the fixed dimensions has exactly one rank. -/
theorem bijOn_orderAt (hp : (p.baked ++ p.free).Perm Dim.all) :
    Set.BijOn p.orderAt (Set.Iio p.size) {o | o.Perm Dim.all ∧ p.baked <+: o} := by
  have hfree : p.free.Nodup := (List.nodup_append'.mp (hp.nodup_iff.mpr Dim.nodup_all)).2.1
  have hfront : Set.BijOn (fun o => p.baked ++ o) {o | o.Perm p.free}
      {o | o.Perm Dim.all ∧ p.baked <+: o} := by
    refine ⟨?_, fun _ _ _ _ he => List.append_cancel_left he, ?_⟩
    · intro o ho
      exact ⟨(List.Perm.append_left p.baked ho).trans hp, List.prefix_append p.baked o⟩
    · rintro _ ⟨hperm, o, rfl⟩
      refine ⟨o, ?_, rfl⟩
      exact (List.perm_append_left_iff p.baked).mp (hperm.trans hp.symm)
  exact hfront.comp (Radix.bijOn_unrank hfree)

end OrderPattern

namespace OrderSpace

/-- The orders of the levels are named by the digits of the index, one for each level. -/
theorem ordersAt_eq_zipWith (ps : List OrderPattern) (i : ℕ) :
    ordersAt ps i =
      List.zipWith OrderPattern.orderAt ps (Radix.digits (ps.map OrderPattern.size) i) := by
  induction ps generalizing i with
  | nil => rfl
  | cons p ps ih =>
    rw [ordersAt, List.map_cons, Radix.digits, List.zipWith_cons_cons, ← ih]
    by_cases hp : p.free.isEmpty
    · have hone : p.size = 1 := by
        rw [OrderPattern.size, List.isEmpty_iff.mp hp]
        rfl
      rw [if_pos hp, OrderPattern.orderAt_of_isEmpty hp, hone, Nat.div_one]
    · rw [if_neg hp]

/-- Every list with an order for each level that starts as its pattern does has exactly one index. -/
theorem bijOn_ordersAt {ps : List OrderPattern} (hall : ∀ p ∈ ps, (p.baked ++ p.free).Perm Dim.all) :
    Set.BijOn (ordersAt ps) (Set.Iio (Radix.volume (ps.map OrderPattern.size)))
      {os | List.Forall₂ (fun p o => o ∈ {o : List Dim | o.Perm Dim.all ∧ p.baked <+: o}) ps os} := by
  have hnum := Radix.bijOn_zipWith_digits ps fun p hp => p.bijOn_orderAt (hall p hp)
  exact hnum.congr fun i _ => (ordersAt_eq_zipWith ps i).symm

/-- The first index leaves the free dimensions of every level in canonical order. -/
theorem ordersAt_zero (ps : List OrderPattern) :
    ordersAt ps 0 = ps.map fun p => p.baked ++ p.free := by
  induction ps with
  | nil => rfl
  | cons p ps ih =>
    have hfirst : p.orderAt 0 = p.baked ++ p.free :=
      congrArg (p.baked ++ ·) (Radix.unrank_zero p.free)
    rw [ordersAt, List.map_cons, Nat.zero_mod, Nat.zero_div, ih, hfirst]
    split
    · next hp => rw [List.isEmpty_iff.mp hp, List.append_nil]
    · rfl

def ofPatterns (ps : List OrderPattern) : OrderSpace :=
  ⟨.plain ps.length, LevelTable.ofPlaces ps.zipIdx⟩

theorem patternsFrom_ofPlaces (ps : List OrderPattern) (k : ℕ) :
    patternsFrom (k + ps.length : ℕ) k (LevelTable.ofPlaces (ps.zipIdx k)) = .ok ps := by
  induction ps generalizing k with
  | nil => simp [patternsFrom, LevelTable.ofPlaces]
  | cons p ps ih =>
    have hlt : (k : ℤ) < (k + (p :: ps).length : ℕ) := by
      rw [List.length_cons]
      omega
    have hcount : k + (p :: ps).length = k + 1 + ps.length := by
      rw [List.length_cons]
      omega
    have hrest := ih (k + 1)
    rw [← hcount] at hrest
    simp only [LevelTable.ofPlaces, List.zipIdx_cons, List.map_cons, patternsFrom, if_pos hlt,
      Numeral.toInt_plain, if_true]
    rw [LevelTable.ofPlaces] at hrest
    rw [← Nat.cast_succ, hrest]
    rfl

theorem allPatterns_ofPatterns (ps : List OrderPattern) : (ofPatterns ps).allPatterns = .ok ps := by
  have h := patternsFrom_ofPlaces ps 0
  rw [Nat.zero_add] at h
  exact h

theorem size_ofPatterns (ps : List OrderPattern) : (ofPatterns ps).size = .ok (volume ps) := by
  rw [size, allPatterns_ofPatterns]
  rfl

theorem volume_pos (ps : List OrderPattern) : 0 < volume ps := by
  apply Radix.volume_pos
  intro r hr
  obtain ⟨p, -, rfl⟩ := List.mem_map.mp hr
  exact p.size_pos

theorem decode_ofPatterns {ps : List OrderPattern} {i : ℕ} (hi : i < volume ps) :
    (ofPatterns ps).decode (.int i) = .ok (ordersAt ps i) := by
  rw [decode, allPatterns_ofPatterns, ok_bind, Value.placeIn_natCast hi]
  rfl

end OrderSpace

end LoopTiling
