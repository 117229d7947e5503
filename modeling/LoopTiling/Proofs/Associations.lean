import Mathlib.Data.List.Nodup
import LoopTiling.Level

/-!
# Associations

Setting keys of an association one after the other keeps their places and nothing but what is set; each
key keeps what it was set to last.
-/
namespace LoopTiling

variable {κ α : Type} [DecidableEq κ]

theorem setKey_of_not_mem {k : κ} (a : α) {t : List (κ × α)}
    (h : k ∉ t.map Prod.fst) : setKey k a t = t ++ [(k, a)] := by
  induction t with
  | nil => rfl
  | cons e t ih =>
    rw [List.map_cons, List.mem_cons, not_or] at h
    rw [setKey, if_neg (Ne.symm h.1), ih h.2]
    rfl

/-- Setting different keys one after the other leaves them as they come. -/
theorem foldl_setKey_of_nodup {named t : List (κ × α)}
    (h : ((t ++ named).map Prod.fst).Nodup) :
    named.foldl (fun t e => setKey e.1 e.2 t) t = t ++ named := by
  induction named generalizing t with
  | nil => exact (List.append_nil t).symm
  | cons e named ih =>
    have happend : t ++ e :: named = t ++ [e] ++ named := by simp
    have hnot : e.1 ∉ t.map Prod.fst := by
      rw [List.map_append, List.nodup_append'] at h
      exact fun hmem => h.2.2 hmem (List.mem_map_of_mem List.mem_cons_self)
    rw [happend] at h ⊢
    rw [List.foldl_cons, setKey_of_not_mem e.2 hnot]
    exact ih h

theorem nodup_setKey (k : κ) (a : α) {t : List (κ × α)}
    (h : (t.map Prod.fst).Nodup) : ((setKey k a t).map Prod.fst).Nodup := by
  by_cases hk : k ∈ t.map Prod.fst
  · have hkeys : (setKey k a t).map Prod.fst = t.map Prod.fst := by
      clear h
      induction t with
      | nil => cases hk
      | cons e t ih =>
        rw [setKey]
        split
        · rfl
        · next hne =>
          rw [List.map_cons, List.mem_cons] at hk
          rw [List.map_cons, List.map_cons, ih (hk.resolve_left (Ne.symm hne))]
    rwa [hkeys]
  · rw [setKey_of_not_mem a hk, List.map_append]
    refine List.nodup_append'.mpr ⟨h, List.nodup_singleton k, fun k' hmem he => hk ?_⟩
    obtain rfl : k' = k := List.mem_singleton.mp he
    exact hmem

theorem nodup_foldl_setKey (named : List (κ × α)) {t : List (κ × α)}
    (h : (t.map Prod.fst).Nodup) :
    ((named.foldl (fun t e => setKey e.1 e.2 t) t).map Prod.fst).Nodup := by
  induction named generalizing t with
  | nil => exact h
  | cons e named ih => exact ih (nodup_setKey e.1 e.2 h)

theorem lookup_setKey (k : κ) (a : α) (t : List (κ × α)) (k' : κ) :
    (setKey k a t).lookup k' = if k = k' then some a else t.lookup k' := by
  have hcons (e : κ) (b : α) (t : List (κ × α)) :
      ((e, b) :: t).lookup k' = if e = k' then some b else t.lookup k' := by
    by_cases h : e = k'
    · simp [h]
    · have hne : (k' == e) = false := beq_false_of_ne (Ne.symm h)
      simp [List.lookup_cons, hne, h]
  induction t with
  | nil => exact hcons k a []
  | cons e t ih =>
    obtain ⟨e, b⟩ := e
    rw [setKey]
    by_cases he : e = k
    · rw [if_pos he, hcons, hcons, he]
      split <;> rfl
    · rw [if_neg he, hcons, hcons, ih]
      by_cases hk : e = k'
      · have hne : ¬ k = k' := fun h => he (hk.trans h.symm)
        rw [if_pos hk, if_pos hk, if_neg hne]
      · rw [if_neg hk, if_neg hk]

theorem mem_of_lookup {k : κ} {a : α} {t : List (κ × α)} (h : t.lookup k = some a) : (k, a) ∈ t := by
  obtain ⟨before, after, rfl, -⟩ := List.lookup_eq_some_iff.mp h
  exact List.mem_append_right before List.mem_cons_self

theorem mem_of_mem_setKey {k : κ} {a : α} {t : List (κ × α)} {e : κ × α}
    (he : e ∈ setKey k a t) : e = (k, a) ∨ e ∈ t := by
  induction t with
  | nil => exact .inl (List.mem_singleton.mp he)
  | cons e' t ih =>
    rw [setKey] at he
    split at he
    · next hk =>
      rcases List.mem_cons.mp he with rfl | he
      · exact .inl (by rw [hk])
      · exact .inr (List.mem_cons_of_mem _ he)
    · rcases List.mem_cons.mp he with rfl | he
      · exact .inr List.mem_cons_self
      · exact (ih he).imp_right (List.mem_cons_of_mem _)

theorem mem_of_mem_foldl_setKey (named : List (κ × α)) {t : List (κ × α)} {e : κ × α}
    (he : e ∈ named.foldl (fun t e => setKey e.1 e.2 t) t) : e ∈ t ∨ e ∈ named := by
  induction named generalizing t with
  | nil => exact .inl he
  | cons e' named ih =>
    rcases ih he with he | he
    · rcases mem_of_mem_setKey he with rfl | he
      · exact .inr List.mem_cons_self
      · exact .inl he
    · exact .inr (List.mem_cons_of_mem _ he)

end LoopTiling
