import Mathlib.Algebra.BigOperators.Group.List.Basic
import Mathlib.Algebra.Order.Ring.Int
import LoopTiling.Mapping
import LoopTiling.Proofs.Outcome

/-!
# Reading the tables of a mapping

What is recorded for a level or a dimension is found under its key, as long as the keys are different.
The product over dimensions of the factors of a level is the product of numbers.
-/
namespace LoopTiling

namespace Value

theorem same_int_int (m n : ℕ) : (int m).same (int n) = decide (m = n) := by
  rw [Bool.eq_iff_iff, decide_eq_true_iff, eq_comm (a := m)]
  simp [same, sameInt, index?]

theorem find?_map_int {α : Type} {es : List α} {key : α → ℕ} (g : α → Value)
    (hd : (es.map key).Nodup) {a : α} (ha : a ∈ es) :
    find? (.int (key a)) (es.map fun e => (.int (key e), g e)) = some (g a) := by
  induction es with
  | nil => cases ha
  | cons e es ih =>
    rw [List.map_cons, List.nodup_cons] at hd
    rw [List.map_cons, find?, same_int_int]
    rcases List.mem_cons.mp ha with rfl | ha
    · simp
    · have hne : key e ≠ key a := fun he => hd.1 (he ▸ List.mem_map_of_mem ha)
      simp [hne, ih hd.2 ha]

theorem find?_map_int_eq_none {α : Type} {es : List α} {key : α → ℕ} (g : α → Value) {n : ℕ}
    (hn : ∀ a ∈ es, key a ≠ n) : find? (.int n) (es.map fun e => (.int (key e), g e)) = none := by
  induction es with
  | nil => rfl
  | cons e es ih =>
    rw [List.forall_mem_cons] at hn
    rw [List.map_cons, find?, same_int_int, if_neg fun he => hn.1 (of_decide_eq_true he),
      ih hn.2]

theorem find?_map_range (g : ℕ → Value) {n k : ℕ} (hk : k < n) :
    find? (.int k) ((List.range n).map fun (i : ℕ) => (.int i, g i)) = some (g k) := by
  have hfind : find? (.int (id k : ℕ)) ((List.range n).map fun i => (.int (id i : ℕ), g i)) =
      some (g k) := by
    refine find?_map_int g ?_ (List.mem_range.mpr hk)
    rw [List.map_id]
    exact List.nodup_range
  exact hfind

theorem lookup_int (n : ℤ) (es : List (Value × Value)) :
    lookup (.int n) es = .ok (find? (.int n) es) := rfl

theorem find?_map_name (f : Dim → Value) (d : Dim) :
    find? (.text d.name) (Dim.all.map fun d => (.text d.name, f d)) = some (f d) := by
  cases d <;> simp [Dim.all, find?, same, Dim.name, Dim.letter]

end Value

namespace Mapping

theorem getD_map {es : List (Value × Value)} {key default : Value} (hkey : key.isKey = true) :
    getD (.map es) key default = .ok ((Value.find? key es).getD default) := by
  simp [getD, Value.entries, Value.lookup, hkey, bind, Except.bind, pure, Except.pure]

theorem getD_name (f : Dim → Value) (d : Dim) (default : Value) :
    getD (.map (Dim.all.map fun d => (.text d.name, f d))) (.text d.name) default = .ok (f d) := by
  rw [getD_map rfl, Value.find?_map_name f]
  rfl

theorem multiply_names (f : Dim → ℕ) (ds : List Dim) (n : ℕ) :
    multiply (.map (Dim.all.map fun d => (.text d.name, .int (f d))))
        (ds.map fun d => .text d.name) (.number (.int n)) =
      .ok (.number (.int ((n * (ds.map f).prod : ℕ) : ℤ))) := by
  induction ds generalizing n with
  | nil => simp [multiply]
  | cons d ds ih =>
    have htimes : (Product.number (.int n)).times (.int (f d)) =
        .ok (.number (.int ((n * f d : ℕ) : ℤ))) := by
      rw [Nat.cast_mul]
      rfl
    rw [List.map_cons, multiply, getD_name fun d => .int (f d), ok_bind, htimes, ok_bind, ih,
      List.map_cons, List.prod_cons, Nat.mul_assoc]

theorem mapEntries_eq_self {α : Type} {f : Value → Except Fault Value} {k g : α → Value}
    (hf : ∀ a, f (g a) = .ok (g a)) (as : List α) :
    mapEntries f (.map (as.map fun a => (k a, g a))) =
      .ok (.map (as.map fun a => (k a, g a))) := by
  have hentries : (as.map fun a => (k a, g a)).mapM
      (fun e => (do return (e.1, ← f e.2) : Except Fault (Value × Value))) =
        .ok (as.map fun a => (k a, g a)) := by
    rw [mapM_eq_ok, List.forall₂_map_left_iff, List.forall₂_map_right_iff, List.forall₂_same]
    intro a _
    rw [hf a]
    rfl
  rw [mapEntries, Value.entries, ok_bind, hentries]
  rfl

end Mapping

end LoopTiling
