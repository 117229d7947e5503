import Mathlib.Data.List.Forall2
import LoopTiling.Fault

/-!
# Outcomes of computations that may fail

Inversion of the steps of a computation: what a bind, a map, a traversal of a list and one of the
seven dimensions give, and where they fail.
-/
namespace LoopTiling

variable {ε α β : Type}

theorem bind_eq_ok {x : Except ε α} {f : α → Except ε β} {b : β} :
    x >>= f = .ok b ↔ ∃ a, x = .ok a ∧ f a = .ok b := by
  cases x with
  | error e => simp [bind, Except.bind]
  | ok a => simp [bind, Except.bind]

theorem bind_eq_error {x : Except ε α} {f : α → Except ε β} {e : ε} :
    x >>= f = .error e ↔ x = .error e ∨ ∃ a, x = .ok a ∧ f a = .error e := by
  cases x with
  | error e => simp [bind, Except.bind]
  | ok a => simp [bind, Except.bind]

theorem ok_bind {a : α} {f : α → Except ε β} : (Except.ok a : Except ε α) >>= f = f a := rfl

theorem error_bind {e : ε} {f : α → Except ε β} :
    (Except.error e : Except ε α) >>= f = .error e := rfl

theorem pure_eq_ok {a b : α} : (pure a : Except ε α) = .ok b ↔ a = b := by
  simp [pure, Except.pure]

/-- A refusal in front of a computation. -/
theorem refuse_eq_ok {c : Prop} [Decidable c] {e : ε} {f : α → Except ε β} {rest : Except ε β}
    {b : β} : (if c then throw e >>= f else rest) = .ok b ↔ ¬ c ∧ rest = .ok b := by
  by_cases h : c
  · simp [h, throw, throwThe, MonadExceptOf.throw, error_bind]
  · simp [h]

theorem refuse_eq_error {c : Prop} [Decidable c] {e e' : ε} {f : α → Except ε β}
    {rest : Except ε β} :
    (if c then throw e >>= f else rest) = .error e' ↔ c ∧ e = e' ∨ ¬ c ∧ rest = .error e' := by
  by_cases h : c
  · simp [h, throw, throwThe, MonadExceptOf.throw, error_bind]
  · simp [h]

/-- A refusal at the end of a computation. -/
theorem refuse_last_eq_ok {c : Prop} [Decidable c] {e : ε} {rest : Except ε β} {b : β} :
    (if c then throw e else rest) = .ok b ↔ ¬ c ∧ rest = .ok b := by
  by_cases h : c
  · simp [h, throw, throwThe, MonadExceptOf.throw]
  · simp [h]

theorem map_eq_ok {x : Except ε α} {f : α → β} {b : β} :
    f <$> x = .ok b ↔ ∃ a, x = .ok a ∧ f a = b := by
  cases x with
  | error e => simp [Functor.map, Except.map]
  | ok a => simp [Functor.map, Except.map]

theorem map_eq_error {x : Except ε α} {f : α → β} {e : ε} :
    f <$> x = .error e ↔ x = .error e := by
  cases x with
  | error e => simp [Functor.map, Except.map]
  | ok a => simp [Functor.map, Except.map]

theorem eq_ok_of_toOption {x : Except ε α} {a : α} (h : x.toOption = some a) : x = .ok a := by
  cases x with
  | error e => cases h
  | ok b => exact congrArg Except.ok (Option.some.inj h)

theorem shown_eq_ok {part : Option String} {s : String} :
    shown part = .ok s ↔ part = some s := by
  cases part <;> simp [shown]

theorem exists_of_forall₂ {R : α → β → Prop} {xs : List α} {ys : List β}
    (h : List.Forall₂ R xs ys) {x : α} (hx : x ∈ xs) : ∃ y ∈ ys, R x y := by
  induction h with
  | nil => cases hx
  | @cons a b xs ys hab _ ih =>
    rcases List.mem_cons.mp hx with rfl | hx
    · exact ⟨b, List.mem_cons_self, hab⟩
    · obtain ⟨y, hy, hxy⟩ := ih hx
      exact ⟨y, List.mem_cons_of_mem b hy, hxy⟩

section Lists

variable {f : α → Except ε β}

theorem mapM_eq_ok {xs : List α} {ys : List β} :
    xs.mapM f = .ok ys ↔ List.Forall₂ (fun x y => f x = .ok y) xs ys := by
  induction xs generalizing ys with
  | nil => simp [pure, Except.pure, eq_comm]
  | cons x xs ih =>
    simp only [List.mapM_cons, bind_eq_ok, ih, pure_eq_ok, List.forall₂_cons_left_iff]
    constructor
    · rintro ⟨y, hy, rest, hrest, rfl⟩
      exact ⟨y, rest, hy, hrest, rfl⟩
    · rintro ⟨y, rest, hy, hrest, rfl⟩
      exact ⟨y, hy, rest, hrest, rfl⟩

theorem mapM_eq_map {xs : List α} {g : α → β} (h : ∀ x ∈ xs, f x = .ok (g x)) :
    xs.mapM f = .ok (xs.map g) := by
  rw [mapM_eq_ok, List.forall₂_map_right_iff, List.forall₂_same]
  exact h

/-- A traversal succeeds on every item, or fails at the first item that does. -/
theorem mapM_cases (f : α → Except ε β) (xs : List α) :
    (∃ ys, xs.mapM f = .ok ys) ∨ ∃ before x after e, xs = before ++ x :: after ∧ f x = .error e ∧
      xs.mapM f = .error e ∧ ∀ y ∈ before, ∃ b, f y = .ok b := by
  induction xs with
  | nil => exact .inl ⟨[], rfl⟩
  | cons x xs ih =>
    cases hx : f x with
    | error e =>
      refine .inr ⟨[], x, xs, e, rfl, hx, ?_, by simp⟩
      rw [List.mapM_cons, hx, error_bind]
    | ok b =>
      rcases ih with ⟨ys, hys⟩ | ⟨before, x', after, e, rfl, hx', hall, hbefore⟩
      · exact .inl ⟨b :: ys, by rw [List.mapM_cons, hx, hys]; rfl⟩
      · refine .inr ⟨x :: before, x', after, e, rfl, hx', ?_, ?_⟩
        · rw [List.mapM_cons, hx, hall]
          rfl
        · exact List.forall_mem_cons.mpr ⟨⟨b, hx⟩, hbefore⟩

/-- A traversal succeeds exactly if it does at every item. -/
theorem exists_mapM_eq_ok {xs : List α} :
    (∃ ys, xs.mapM f = .ok ys) ↔ ∀ x ∈ xs, ∃ y, f x = .ok y := by
  constructor
  · rintro ⟨ys, hys⟩ x hx
    obtain ⟨y, -, hy⟩ := exists_of_forall₂ (mapM_eq_ok.mp hys) hx
    exact ⟨y, hy⟩
  · intro h
    rcases mapM_cases f xs with hys | ⟨before, x, after, e, rfl, hx, -, -⟩
    · exact hys
    · obtain ⟨y, hy⟩ := h x (by simp)
      rw [hx] at hy
      cases hy

end Lists

theorem Dim.mem_before_of_index_lt {before after : List Dim} {d d' : Dim}
    (h : Dim.all = before ++ d :: after) (hlt : d'.index < d.index) : d' ∈ before := by
  have hplace : before.length = d.index := by
    have hd : Dim.all[before.length]? = Dim.all[d.index]? := by
      rw [Dim.getElem?_all_index, h, List.getElem?_append_right (Nat.le_refl _), Nat.sub_self]
      rfl
    have hlen : before.length < Dim.all.length := by simp [h]
    exact (List.getElem?_inj hlen Dim.nodup_all).mp hd
  have hd' : before[d'.index]? = some d' := by
    rw [← Dim.getElem?_all_index d', h, List.getElem?_append_left (by omega)]
  exact List.mem_of_getElem? hd'

theorem Dim.index_injective : Function.Injective Dim.index := by
  intro d d' he
  have hd := Dim.getElem?_all_index d
  rw [he, Dim.getElem?_all_index] at hd
  exact (Option.some.inj hd).symm

namespace PerDim

variable {f : Dim → Except ε α}

theorem toList_ofFnM (f : Dim → Except ε α) : toList <$> ofFnM f = Dim.all.mapM f := by
  simp [ofFnM, toList, Dim.all]

/-- A traversal of the dimensions gives a family with a value for each dimension, or fails at the
first dimension that does. -/
theorem ofFnM_cases (f : Dim → Except ε α) :
    (∃ v, ofFnM f = .ok v) ∨ ∃ d e, f d = .error e ∧ ofFnM f = .error e ∧
      ∀ d' : Dim, d'.index < d.index → ∃ a, f d' = .ok a := by
  rcases mapM_cases f Dim.all with ⟨ys, hys⟩ | ⟨before, d, after, e, hall, hd, herr, hbefore⟩
  · rw [← toList_ofFnM, map_eq_ok] at hys
    obtain ⟨v, hv, -⟩ := hys
    exact .inl ⟨v, hv⟩
  · refine .inr ⟨d, e, hd, ?_, fun d' hlt => hbefore d' (Dim.mem_before_of_index_lt hall hlt)⟩
    rw [← toList_ofFnM] at herr
    cases hv : ofFnM f with
    | error e' =>
      rw [hv] at herr
      exact congrArg Except.error (Except.error.inj herr)
    | ok v =>
      rw [hv] at herr
      cases herr

theorem ofFnM_eq_ok {v : PerDim α} : ofFnM f = .ok v ↔ ∀ d, f d = .ok (v.get d) := by
  have hlist : ofFnM f = .ok v ↔ Dim.all.mapM f = .ok v.toList := by
    rw [← toList_ofFnM, map_eq_ok]
    constructor
    · exact fun h => ⟨v, h, rfl⟩
    · rintro ⟨w, hw, hlist⟩
      have hwv : w = v := by
        rw [toList_eq, toList_eq, List.map_inj_left] at hlist
        exact ext_get fun d => hlist d (Dim.mem_all d)
      rw [hw, hwv]
  rw [hlist, mapM_eq_ok, toList_eq, List.forall₂_map_right_iff, List.forall₂_same]
  exact ⟨fun h d => h d (Dim.mem_all d), fun h d _ => h d⟩

end PerDim

end LoopTiling
