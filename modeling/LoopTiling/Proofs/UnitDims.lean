import Mathlib.Algebra.BigOperators.Group.List.Basic
import Mathlib.Data.List.Nodup
import Mathlib.Data.List.Perm.Basic
import LoopTiling.Dim

/-!
# Orders without their unit dimensions

A dimension whose factor at a level is one runs no loop there, so an order matters only by its other
dimensions, and a cut only by those of them in front of it. Moving the unit dimensions to the front
keeps both, and gives the same order and cut for all orders and cuts that agree in them. Behind a given
start of an order the other dimensions may be put in every way that the start leaves open.
-/
namespace LoopTiling

namespace UnitDims

variable {α : Type} {q : α → Bool} {o o' : List α} {s s' : ℕ}

theorem filter_take_eq (q : α → Bool) (o : List α) (s : ℕ) :
    (o.take s).filter q = (o.filter q).take ((o.take s).filter q).length :=
  List.prefix_iff_eq_take.mp ((List.take_prefix s o).filter q)

/-- The least cut with a number of items that count before it. -/
def cutAfter (q : α → Bool) : List α → ℕ → ℕ
  | _, 0 => 0
  | [], _ + 1 => 0
  | x :: o, c + 1 => (if q x then cutAfter q o c else cutAfter q o (c + 1)) + 1

theorem filter_take_cutAfter (q : α → Bool) (o : List α) {c : ℕ} (hc : c ≤ (o.filter q).length) :
    (o.take (cutAfter q o c)).filter q = (o.filter q).take c := by
  induction o generalizing c with
  | nil => simp
  | cons x o ih =>
    cases c with
    | zero => simp [cutAfter]
    | succ c =>
      rw [cutAfter, List.take_succ_cons]
      by_cases hx : q x
      · rw [List.filter_cons_of_pos hx, List.length_cons, Nat.succ_le_succ_iff] at hc
        rw [if_pos hx, List.filter_cons_of_pos hx, List.filter_cons_of_pos hx, List.take_succ_cons,
          ih hc]
      · rw [List.filter_cons_of_neg hx] at hc
        rw [if_neg hx, List.filter_cons_of_neg hx, List.filter_cons_of_neg hx, ih hc]

theorem cutAfter_le (q : α → Bool) (o : List α) (c : ℕ) : cutAfter q o c ≤ o.length := by
  induction o generalizing c with
  | nil => cases c <;> exact Nat.le_refl 0
  | cons x o ih =>
    cases c with
    | zero => exact Nat.zero_le _
    | succ c =>
      rw [cutAfter, List.length_cons]
      split
      · exact Nat.succ_le_succ (ih c)
      · exact Nat.succ_le_succ (ih (c + 1))

/-- Two cuts have the same items that count before them if they have them as sets. -/
theorem filter_take_eq_of_mem_iff (ho : o.Nodup) (he : o.filter q = o'.filter q)
    (hmem : ∀ a, q a → (a ∈ o.take s ↔ a ∈ o'.take s')) :
    (o.take s).filter q = (o'.take s').filter q := by
  have hnodup : (o.filter q).Nodup := ho.filter q
  have hleft := filter_take_eq q o s
  have hright := filter_take_eq q o' s'
  rw [← he] at hright
  have hperm : ((o.take s).filter q).Perm ((o'.take s').filter q) := by
    refine (List.perm_ext_iff_of_nodup ?_ ?_).mpr fun a => ?_
    · rw [hleft]
      exact hnodup.sublist (List.take_sublist _ _)
    · rw [hright]
      exact hnodup.sublist (List.take_sublist _ _)
    · rw [List.mem_filter, List.mem_filter]
      exact and_congr_left fun ha => hmem a ha
  rw [hleft, hright, hperm.length_eq]

theorem filter_drop_eq (he : o.filter q = o'.filter q)
    (htake : (o.take s).filter q = (o'.take s').filter q) :
    (o.drop s).filter q = (o'.drop s').filter q := by
  rw [← List.take_append_drop s o, ← List.take_append_drop s' o', List.filter_append,
    List.filter_append, htake] at he
  exact List.append_cancel_left he

theorem prod_map_filter {f : α → ℕ} (hone : ∀ a, q a = false → f a = 1) (o : List α) :
    (o.map f).prod = ((o.filter q).map f).prod := by
  induction o with
  | nil => rfl
  | cons x o ih =>
    cases hx : q x with
    | true => rw [List.filter_cons_of_pos hx, List.map_cons, List.map_cons, List.prod_cons,
        List.prod_cons, ih]
    | false => rw [List.filter_cons_of_neg (by simp [hx]), List.map_cons, List.prod_cons, hone x hx,
        Nat.one_mul, ih]

end UnitDims

/-- An order with the unit dimensions moved to its front, in canonical order. -/
def pruneOrder (unit : Dim → Bool) (o : List Dim) : List Dim :=
  Dim.all.filter unit ++ o.filter fun d => !unit d

/-- An order that starts in a given way and has the dimensions that are no unit ones as another
order has them. -/
def unpruneOrder (unit : Dim → Bool) (lead o : List Dim) : List Dim :=
  lead ++ (Dim.all.filter (fun d => unit d && d ∉ lead) ++
    o.filter fun d => !unit d && d ∉ lead)

variable {unit : Dim → Bool} {lead o : List Dim} {s : ℕ}

theorem perm_pruneOrder (ho : o.Perm Dim.all) : (pruneOrder unit o).Perm Dim.all :=
  ((ho.filter _).append_left _).trans (List.filter_append_perm unit Dim.all)

theorem filter_units (unit : Dim → Bool) :
    (Dim.all.filter unit).filter (fun d => !unit d) = [] := by
  rw [List.filter_filter, List.filter_eq_nil_iff]
  intro d _
  cases unit d <;> decide

theorem filter_pruneOrder (unit : Dim → Bool) (o : List Dim) :
    (pruneOrder unit o).filter (fun d => !unit d) = o.filter fun d => !unit d := by
  rw [pruneOrder, List.filter_append, filter_units, List.nil_append, List.filter_filter]
  simp only [Bool.and_self]

theorem filter_not_mem_units (unit : Dim → Bool) (lead : List Dim) :
    lead.filter (· ∉ Dim.all.filter unit) = lead.filter fun d => !unit d := by
  apply List.filter_congr
  intro d _
  cases hd : unit d <;> simp [hd, Dim.mem_all]

theorem prefix_pruneOrder (hlead : lead <+: o) :
    Dim.all.filter unit ++ lead.filter (· ∉ Dim.all.filter unit) <+: pruneOrder unit o := by
  rw [filter_not_mem_units, pruneOrder]
  exact (List.prefix_append_right_inj _).mpr (hlead.filter _)

/-- An order of all dimensions that starts with the unit ones is determined by the others. -/
theorem eq_pruneOrder (ho : o.Perm Dim.all) (hunits : Dim.all.filter unit <+: o) :
    o = pruneOrder unit o := by
  obtain ⟨rest, rfl⟩ := hunits
  have hnodup : (Dim.all.filter unit ++ rest).Nodup := ho.nodup_iff.mpr Dim.nodup_all
  have hrest : rest.filter (fun d => !unit d) = rest := by
    apply List.filter_eq_self.mpr
    intro d hd
    by_contra hunit
    have hmem : d ∈ Dim.all.filter unit := List.mem_filter.mpr ⟨Dim.mem_all d, by simpa using hunit⟩
    exact (List.nodup_append'.mp hnodup).2.2 hmem hd
  rw [pruneOrder, List.filter_append, filter_units, List.nil_append, hrest]

theorem filter_take_pruneOrder (unit : Dim → Bool) (o : List Dim) (s : ℕ) :
    ((pruneOrder unit o).take s).filter (fun d => !unit d) =
      (o.filter fun d => !unit d).take (s - (Dim.all.filter unit).length) := by
  have hunits : ((Dim.all.filter unit).take s).filter (fun d => !unit d) = [] :=
    List.sublist_nil.mp (filter_units unit ▸ (List.take_sublist s _).filter _)
  have hrest : ((o.filter fun d => !unit d).take (s - (Dim.all.filter unit).length)).filter
      (fun d => !unit d) = (o.filter fun d => !unit d).take (s - (Dim.all.filter unit).length) :=
    List.filter_eq_self.mpr fun d hd => (List.mem_filter.mp (List.mem_of_mem_take hd)).2
  rw [pruneOrder, List.take_append, List.filter_append, hunits, List.nil_append, hrest]

theorem length_filter_not (unit : Dim → Bool) (ho : o.Perm Dim.all) :
    (Dim.all.filter unit).length + (o.filter fun d => !unit d).length = Dim.count := by
  rw [← List.length_append, ← pruneOrder, (perm_pruneOrder ho).length_eq, Dim.length_all]

/-- The dimensions that are not in a list, in canonical order. -/
def restOf (lead : List Dim) : List Dim := Dim.all.filter fun d => !decide (d ∈ lead)

theorem perm_append_restOf (hlead : lead.Nodup) {rest : List Dim} (hrest : rest.Perm (restOf lead)) :
    (lead ++ rest).Perm Dim.all := by
  have hfront : lead.Perm (Dim.all.filter (· ∈ lead)) := by
    refine (List.perm_ext_iff_of_nodup hlead (Dim.nodup_all.filter _)).mpr fun d => ?_
    simp [Dim.mem_all]
  exact (hfront.append hrest).trans (List.filter_append_perm (fun d => decide (d ∈ lead)) Dim.all)

theorem perm_unpruneOrder (unit : Dim → Bool) (hl : lead.Nodup) (ho : o.Perm Dim.all) :
    (unpruneOrder unit lead o).Perm Dim.all := by
  refine perm_append_restOf hl ?_
  have hsplit := List.filter_append_perm unit (restOf lead)
  rw [restOf, List.filter_filter, List.filter_filter] at hsplit
  simp only [decide_not]
  exact ((ho.filter _).append_left _).trans hsplit

theorem prefix_unpruneOrder (unit : Dim → Bool) (lead o : List Dim) :
    lead <+: unpruneOrder unit lead o := List.prefix_append _ _

/-- Where an order has the dimensions of the start that are no unit ones in front of the others, it
keeps them in their places. -/
theorem filter_unpruneOrder (ho : o.Nodup)
    (hlead : lead.filter (fun d => !unit d) <+: o.filter fun d => !unit d) :
    (unpruneOrder unit lead o).filter (fun d => !unit d) = o.filter fun d => !unit d := by
  obtain ⟨rest, hrest⟩ := hlead
  have hnodup : (lead.filter (fun d => !unit d) ++ rest).Nodup := hrest ▸ ho.filter _
  have hunits : (Dim.all.filter fun d => unit d && d ∉ lead).filter (fun d => !unit d) = [] := by
    rw [List.filter_filter, List.filter_eq_nil_iff]
    intro d _
    cases unit d <;> simp
  -- The start takes its own dimensions out of the order, and what is left is the rest.
  have hothers : (o.filter fun d => !unit d && d ∉ lead).filter (fun d => !unit d) = rest := by
    have hback : o.filter (fun d => !unit d && d ∉ lead) =
        (o.filter fun d => !unit d).filter (· ∉ lead) := by
      rw [List.filter_filter]
      exact List.filter_congr fun d _ => Bool.and_comm _ _
    have hin : (lead.filter fun d => !unit d).filter (· ∉ lead) = [] :=
      List.filter_eq_nil_iff.mpr fun d hd => by simpa using (List.mem_filter.mp hd).1
    have hout : rest.filter (· ∉ lead) = rest := by
      refine List.filter_eq_self.mpr fun d hd => decide_eq_true fun hmem => ?_
      have hunit : (!unit d) = true :=
        (List.mem_filter.mp (hrest ▸ List.mem_append_right _ hd : d ∈ o.filter fun d => !unit d)).2
      exact (List.nodup_append'.mp hnodup).2.2 (List.mem_filter.mpr ⟨hmem, hunit⟩) hd
    have hself : rest.filter (fun d => !unit d) = rest :=
      List.filter_eq_self.mpr fun d hd =>
        (List.mem_filter.mp (hrest ▸ List.mem_append_right _ hd : d ∈ o.filter fun d => !unit d)).2
    rw [hback, ← hrest, List.filter_append, hin, hout, List.nil_append, hself]
  rw [unpruneOrder, List.filter_append, List.filter_append, hunits, List.nil_append, hothers, hrest]

end LoopTiling
