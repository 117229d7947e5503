import Mathlib.Data.List.Perm.Subperm
import LoopTiling.Proofs.UnitDims

/-!
# Cuts at a fixed place

Moving the unit dimensions of an order to its front changes which other dimensions stand before a fixed
cut, unless one of four conditions holds (`CutKept`): then the same dimensions stand before the cut in
either order, and otherwise some order that starts in the given way has another number of them there.
-/
namespace LoopTiling

/-- Whether moving the unit dimensions to the front keeps the other ones before a cut in all orders with
a given start: all unit dimensions stand before the cut already, or only unit dimensions do, or nothing
stands behind it, or there are no others. -/
def CutKept (unit : Dim → Bool) (lead : List Dim) (s : ℕ) : Prop :=
  (∀ d ∈ Dim.all, unit d → d ∈ lead.take s) ∨ (s ≤ lead.length ∧ ∀ d ∈ lead.take s, unit d) ∨
    s = Dim.count ∨ ∀ d ∈ Dim.all, unit d

instance (unit : Dim → Bool) (lead : List Dim) (s : ℕ) : Decidable (CutKept unit lead s) :=
  inferInstanceAs (Decidable (_ ∨ _ ∨ _ ∨ _))

variable {unit : Dim → Bool} {lead o : List Dim} {s : ℕ}

theorem length_filter_take (unit : Dim → Bool) (ho : o.Perm Dim.all) (hs : s ≤ Dim.count) :
    ((o.take s).filter unit).length + ((o.take s).filter fun d => !unit d).length = s := by
  have hlength := (List.filter_append_perm unit (o.take s)).length_eq
  rw [List.length_append, List.length_take, ho.length_eq, Dim.length_all] at hlength
  exact hlength.trans (Nat.min_eq_left hs)

theorem length_filter_unit_take_le (unit : Dim → Bool) (ho : o.Perm Dim.all) (s : ℕ) :
    ((o.take s).filter unit).length ≤ (Dim.all.filter unit).length := by
  rw [← (ho.filter unit).length_eq]
  exact ((List.take_sublist s o).filter unit).length_le

/-- Before a cut stand as many unit dimensions as there are if and only if all of them do. -/
theorem length_filter_unit_take_eq_iff (unit : Dim → Bool) (ho : o.Perm Dim.all) (s : ℕ) :
    ((o.take s).filter unit).length = (Dim.all.filter unit).length ↔
      ∀ d ∈ Dim.all, unit d → d ∈ o.take s := by
  have hsub : ((o.take s).filter unit).Sublist (o.filter unit) := (List.take_sublist s o).filter unit
  rw [← (ho.filter unit).length_eq]
  constructor
  · intro hlength d hd hunit
    have hmem : d ∈ o.filter unit := List.mem_filter.mpr ⟨ho.mem_iff.mpr hd, hunit⟩
    rw [← hsub.eq_of_length hlength] at hmem
    exact (List.mem_filter.mp hmem).1
  · intro hall
    have hnodup : (o.filter unit).Nodup := (ho.nodup_iff.mpr Dim.nodup_all).filter _
    refine Nat.le_antisymm hsub.length_le (hnodup.subperm fun d hd => ?_).length_le
    obtain ⟨hmem, hunit⟩ := List.mem_filter.mp hd
    exact List.mem_filter.mpr ⟨hall d (ho.mem_iff.mp hmem) hunit, hunit⟩

theorem take_eq_of_start (hlead : lead <+: o) (hs : s ≤ lead.length) : o.take s = lead.take s := by
  obtain ⟨rest, rfl⟩ := hlead
  rw [List.take_append_of_le_length hs]

theorem take_subset_of_start (hlead : lead <+: o) (s : ℕ) : lead.take s ⊆ o.take s := by
  obtain ⟨rest, rfl⟩ := hlead
  rw [List.take_append]
  exact List.subset_append_left _ _

theorem filter_take_of_cutKept (hkept : CutKept unit lead s) (ho : o.Perm Dim.all)
    (hlead : lead <+: o) (hs : s ≤ Dim.count) :
    ((pruneOrder unit o).take s).filter (fun d => !unit d) = (o.take s).filter fun d => !unit d := by
  have hcount := length_filter_take unit ho hs
  have htotal := length_filter_not unit ho
  rw [filter_take_pruneOrder, UnitDims.filter_take_eq (fun d => !unit d) o s]
  -- Both sides start the order without its unit dimensions, so their lengths decide.
  rcases hkept with hall | ⟨hle, hunits⟩ | rfl | hall
  · have hbefore := (length_filter_unit_take_eq_iff unit ho s).mpr fun d hd hunit =>
      take_subset_of_start hlead s (hall d hd hunit)
    congr 1
    omega
  · have hnone : (o.take s).filter (fun d => !unit d) = [] := by
      rw [take_eq_of_start hlead hle, List.filter_eq_nil_iff]
      exact fun d hd => by simp [hunits d hd]
    have hunit := length_filter_unit_take_le unit ho s
    rw [hnone, List.length_nil] at hcount ⊢
    congr 1
    omega
  · have hwhole : o.take Dim.count = o := List.take_of_length_le (Nat.le_of_eq ho.length_eq)
    rw [hwhole]
    congr 1
    omega
  · have hnone : o.filter (fun d => !unit d) = [] :=
      List.filter_eq_nil_iff.mpr fun d hd => by simp [hall d (ho.mem_iff.mp hd)]
    rw [hnone, List.take_nil, List.take_nil]

theorem length_ne_of_cut_in_start (hbefore : ¬ ∀ d ∈ Dim.all, unit d → d ∈ lead.take s)
    (hunits : ¬ ∀ d ∈ lead.take s, unit d) (ho : o.Perm Dim.all) (hlead : lead <+: o)
    (hle : s ≤ lead.length) (hs : s ≤ Dim.count) :
    ((o.take s).filter fun d => !unit d).length ≠ s - (Dim.all.filter unit).length := by
  intro hlength
  have htake := take_eq_of_start hlead hle
  have hcount := length_filter_take unit ho hs
  have hothers : (o.take s).filter (fun d => !unit d) ≠ [] := by
    intro hnil
    rw [htake, List.filter_eq_nil_iff] at hnil
    exact hunits fun d hd => by simpa using hnil d hd
  have hpos := List.length_pos_of_ne_nil hothers
  exact hbefore (htake ▸ (length_filter_unit_take_eq_iff unit ho s).mp (by omega))

section Behind

/-- The unit dimensions that a start leaves. -/
def restUnits (unit : Dim → Bool) (lead : List Dim) : List Dim := (restOf lead).filter unit

/-- The other dimensions that a start leaves. -/
def restOthers (unit : Dim → Bool) (lead : List Dim) : List Dim :=
  (restOf lead).filter fun d => !unit d

/-- An order with a given start and the dimensions that this leaves, all unit ones in front of the others
or behind them. -/
def fill (unit : Dim → Bool) (lead others : List Dim) (first : Bool) : List Dim :=
  lead ++ if first then restUnits unit lead ++ others else others ++ restUnits unit lead

variable {others : List Dim}

theorem prefix_fill (unit : Dim → Bool) (lead others : List Dim) (first : Bool) :
    lead <+: fill unit lead others first := List.prefix_append _ _

theorem perm_fill (hlead : lead.Nodup) (hothers : others.Perm (restOthers unit lead)) (first : Bool) :
    (fill unit lead others first).Perm Dim.all := by
  have hrest : (restUnits unit lead ++ others).Perm (restOf lead) :=
    (hothers.append_left _).trans (List.filter_append_perm unit _)
  refine perm_append_restOf hlead ?_
  cases first with
  | true => exact hrest
  | false => exact List.perm_append_comm.trans hrest

theorem filter_restUnits (unit : Dim → Bool) (lead : List Dim) (n : ℕ) :
    ((restUnits unit lead).take n).filter (fun d => !unit d) = [] :=
  List.filter_eq_nil_iff.mpr fun d hd => by
    simp [(List.mem_filter.mp (List.mem_of_mem_take hd)).2]

theorem filter_of_perm_restOthers (hothers : others.Perm (restOthers unit lead)) (n : ℕ) :
    (others.take n).filter (fun d => !unit d) = others.take n :=
  List.filter_eq_self.mpr fun _ hd =>
    (List.mem_filter.mp (hothers.mem_iff.mp (List.mem_of_mem_take hd))).2

theorem filter_fill (hothers : others.Perm (restOthers unit lead)) (first : Bool) :
    (fill unit lead others first).filter (fun d => !unit d) =
      lead.filter (fun d => !unit d) ++ others := by
  have hunits := filter_restUnits unit lead (restUnits unit lead).length
  have hself := filter_of_perm_restOthers hothers others.length
  rw [List.take_length] at hunits hself
  cases first <;> simp [fill, hunits, hself]

/-- Before a cut behind the start stand the others of the start, and then those behind it that the
place of the unit dimensions lets through. -/
theorem length_filter_take_fill (hothers : others.Perm (restOthers unit lead)) (hlt : lead.length < s)
    (first : Bool) : (((fill unit lead others first).take s).filter fun d => !unit d).length =
      (lead.filter fun d => !unit d).length +
        min (s - lead.length - if first then (restUnits unit lead).length else 0)
          (restOthers unit lead).length := by
  have hstart : lead.take s = lead := List.take_of_length_le (Nat.le_of_lt hlt)
  rw [← hothers.length_eq]
  cases first <;> simp only [fill, if_true, Bool.false_eq_true, if_false, List.take_append,
    List.filter_append, List.length_append, hstart, filter_restUnits,
    filter_of_perm_restOthers hothers, List.length_take, List.length_nil, Nat.zero_add, Nat.add_zero,
    Nat.sub_zero]

theorem length_units_eq (unit : Dim → Bool) (hlead : lead.Nodup) :
    (Dim.all.filter unit).length = (lead.filter unit).length + (restUnits unit lead).length := by
  have hperm := ((perm_append_restOf hlead (List.Perm.refl _)).filter unit).length_eq
  rw [List.filter_append, List.length_append] at hperm
  exact hperm.symm

theorem length_rest (unit : Dim → Bool) (hlead : lead.Nodup) : (lead.filter unit).length +
    (lead.filter fun d => !unit d).length = lead.length ∧ lead.length +
      ((restUnits unit lead).length + (restOthers unit lead).length) = Dim.count := by
  have hsplit := (List.filter_append_perm unit lead).length_eq
  have hall := (perm_append_restOf hlead (List.filter_append_perm unit _)).length_eq
  rw [List.length_append] at hsplit
  rw [List.length_append, List.length_append, Dim.length_all] at hall
  exact ⟨hsplit, hall⟩

theorem exists_of_cut_behind_start (hunit : ∃ d, unit d ∧ d ∉ lead) (hother : ∃ d, ¬ unit d)
    (hlead : lead.Nodup) (hlt : lead.length < s) (hs : s < Dim.count) :
    ∃ first n, n ≠ s - (Dim.all.filter unit).length ∧ ∀ others, others.Perm (restOthers unit lead) →
      (((fill unit lead others first).take s).filter fun d => !unit d).length = n := by
  obtain ⟨hsplit, hall⟩ := length_rest unit hlead
  have hunits := length_units_eq unit hlead
  have hpos : 0 < (restUnits unit lead).length := by
    obtain ⟨d, hd, hmem⟩ := hunit
    have hrest : d ∈ restOf lead := List.mem_filter.mpr ⟨Dim.mem_all d, by simpa using hmem⟩
    exact List.length_pos_of_mem (List.mem_filter.mpr ⟨hrest, hd⟩)
  have hnotall : (Dim.all.filter unit).length ≠ Dim.count := by
    obtain ⟨d, hd⟩ := hother
    exact fun hfull => hd (List.length_filter_eq_length_iff.mp hfull d (Dim.mem_all d))
  -- The unit dimensions can go to either side of the cut, and then the numbers before it differ.
  by_contra hnone
  have hsame (first : Bool) : (lead.filter fun d => !unit d).length +
      min (s - lead.length - if first then (restUnits unit lead).length else 0)
        (restOthers unit lead).length = s - (Dim.all.filter unit).length :=
    by_contra fun hne => hnone ⟨first, _, hne, fun others hothers =>
      length_filter_take_fill hothers hlt first⟩
  have hfront := hsame true
  have hback := hsame false
  simp only [if_true, Bool.false_eq_true, if_false] at hfront hback
  omega

end Behind

/-- Where a cut is not kept, some place of the unit dimensions puts another number of dimensions before
it than they do in front, whatever the order of the others is. -/
theorem exists_of_not_cutKept (hnot : ¬ CutKept unit lead s) (hlead : lead.Nodup)
    (hs : s ≤ Dim.count) :
    ∃ first n, n ≠ s - (Dim.all.filter unit).length ∧ ∀ others, others.Perm (restOthers unit lead) →
      (((fill unit lead others first).take s).filter fun d => !unit d).length = n := by
  simp only [CutKept, not_or] at hnot
  obtain ⟨hbefore, hunits, hwhole, hothers⟩ := hnot
  by_cases hle : s ≤ lead.length
  · have htake (others : List Dim) : (fill unit lead others true).take s = lead.take s :=
      take_eq_of_start (prefix_fill unit lead others true) hle
    have hfill := perm_fill hlead (List.Perm.refl (restOthers unit lead)) true
    have hne := length_ne_of_cut_in_start hbefore (fun hall => hunits ⟨hle, hall⟩) hfill
      (prefix_fill unit lead _ true) hle hs
    rw [htake] at hne
    exact ⟨true, _, hne, fun others _ => by rw [htake]⟩
  · have hbehind : lead.take s = lead := List.take_of_length_le (by omega)
    rw [hbehind] at hbefore
    push Not at hbefore hothers
    obtain ⟨d, -, hd⟩ := hbefore
    obtain ⟨d', -, hd'⟩ := hothers
    exact exists_of_cut_behind_start ⟨d, hd⟩ ⟨d', by simpa using hd'⟩ hlead (by omega) (by omega)

end LoopTiling
