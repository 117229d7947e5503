import Mathlib.Data.List.Pairwise
import Mathlib.Data.List.Perm.Basic
import LoopTiling.Proofs.Keys
import LoopTiling.Proofs.LevelTable
import LoopTiling.State.Entries

/-!
# Entries in the order of insertion and tables in ascending order

An object keeps what it has for its levels in the order in which they came; a table keeps it in
ascending order. As long as no level is there twice the order does not matter: a level has the same
in both, setting a level in both leaves the same entries in both, and sorting the one gives the
other. A table that is ascending stays so, and setting two different levels in it may be done in
either order.
-/
namespace LoopTiling

variable {α β : Type}

def Apart (t : List (Numeral × α)) : Prop := t.Pairwise fun e f => e.1.toInt ≠ f.1.toInt

theorem Apart.perm {t t' : List (Numeral × α)} (h : Apart t) (hp : t.Perm t') : Apart t' :=
  (hp.pairwise_iff fun hne => hne.symm).mp h

theorem Apart.eq_of_toInt_eq {t : List (Numeral × α)} (h : Apart t) {e f : Numeral × α} (he : e ∈ t)
    (hf : f ∈ t) (hef : e.1.toInt = f.1.toInt) : e = f := by
  have : Std.Symm fun e f : Numeral × α => e.1.toInt ≠ f.1.toInt := ⟨fun _ _ hne => hne.symm⟩
  by_contra hne
  exact h.forall he hf hne hef

namespace LevelTable

def Ascending (t : LevelTable α) : Prop := t.Pairwise fun e f => e.1.toInt < f.1.toInt

theorem Ascending.apart {t : LevelTable α} (h : Ascending t) : Apart t := h.imp ne_of_lt

theorem mem_set {level : Numeral} {a : α} {t : LevelTable α} {e : Numeral × α}
    (h : e ∈ set level a t) : (e.1.toInt = level.toInt ∧ e.2 = a) ∨ e ∈ t := by
  induction t with
  | nil =>
    rw [List.mem_singleton.mp h]
    exact .inl ⟨rfl, rfl⟩
  | cons f t ih =>
    rw [set] at h
    split at h
    · next hf =>
      rcases List.mem_cons.mp h with rfl | h
      · exact .inl ⟨hf, rfl⟩
      · exact .inr (List.mem_cons_of_mem f h)
    · split at h
      · rcases List.mem_cons.mp h with rfl | h
        · exact .inl ⟨rfl, rfl⟩
        · exact .inr h
      · rcases List.mem_cons.mp h with rfl | h
        · exact .inr List.mem_cons_self
        · exact (ih h).imp_right (List.mem_cons_of_mem f)

theorem ascending_set (level : Numeral) (a : α) {t : LevelTable α} (h : Ascending t) :
    Ascending (set level a t) := by
  induction t with
  | nil => exact List.pairwise_singleton _ _
  | cons e t ih =>
    obtain ⟨habove, ht⟩ := List.pairwise_cons.mp h
    rw [set]
    split
    · exact List.pairwise_cons.mpr ⟨habove, ht⟩
    · split
      · next hlt =>
        refine List.pairwise_cons.mpr ⟨List.forall_mem_cons.mpr ⟨hlt, fun f hf => ?_⟩, h⟩
        exact hlt.trans (habove f hf)
      · next hne hnot =>
        have hbelow : e.1.toInt < level.toInt := lt_of_le_of_ne (not_lt.mp hnot) hne
        refine List.pairwise_cons.mpr ⟨fun f hf => ?_, ih ht⟩
        rcases mem_set hf with ⟨hlevel, -⟩ | hf
        · exact hbelow.trans_eq hlevel.symm
        · exact habove f hf

theorem find?_set (level : Numeral) (a : α) (t : LevelTable α) (l : ℤ) :
    find? l (set level a t) = if level.toInt = l then some a else find? l t := by
  by_cases h : level.toInt = l
  · rw [if_pos h, ← h, find?_set_self]
  · rw [if_neg h, find?_set_ne h]

/-- Setting different levels may be done in either order. -/
theorem set_comm {level level' : Numeral} (hne : level.toInt ≠ level'.toInt) (a a' : α)
    (t : LevelTable α) : set level a (set level' a' t) = set level' a' (set level a t) := by
  induction t with
  | nil => grind [set]
  | cons e t ih => grind [set]

theorem find?_map (f : α → β) (level : ℤ) (t : LevelTable α) :
    find? level (t.map fun e => (e.1, f e.2)) = (find? level t).map f := by
  induction t with
  | nil => rfl
  | cons e t ih =>
    rw [List.map_cons, find?, find?, ih]
    split <;> rfl

theorem find?_eq (level : ℤ) (t : LevelTable α) :
    find? level t = (List.find? (fun e => e.1.toInt = level) t).map Prod.snd := by
  induction t with
  | nil => rfl
  | cons e t ih =>
    by_cases h : e.1.toInt = level
    · simp [find?, h]
    · simp [find?, h, ih]

theorem mem_of_find? {level : ℤ} {a : α} {t : LevelTable α} (h : find? level t = some a) :
    ∃ l, l.toInt = level ∧ (l, a) ∈ t := by
  rw [find?_eq, Option.map_eq_some_iff] at h
  obtain ⟨⟨l, b⟩, he, rfl⟩ := h
  have hl := List.find?_some he
  exact ⟨l, of_decide_eq_true hl, List.mem_of_find?_eq_some he⟩

theorem find?_of_mem {t : LevelTable α} (h : Apart t) {e : Numeral × α} (he : e ∈ t) :
    find? e.1.toInt t = some e.2 := by
  induction t with
  | nil => cases he
  | cons f t ih =>
    obtain ⟨hne, ht⟩ := List.pairwise_cons.mp h
    rw [find?]
    rcases List.mem_cons.mp he with rfl | he
    · rw [if_pos rfl]
    · rw [if_neg (hne e he), ih ht he]

end LevelTable

/-- The order of a list does not matter to a search for what is there once. -/
theorem find?_eq_of_perm {p : α → Bool} {t t' : List α} (h : t.Perm t')
    (honce : t.Pairwise fun e f => ¬ (p e ∧ p f)) : t.find? p = t'.find? p := by
  induction h with
  | nil => rfl
  | cons e _ ih =>
    rw [List.find?_cons, List.find?_cons, ih (List.pairwise_cons.mp honce).2]
  | swap e f t =>
    have hnot : ¬ (p f ∧ p e) := (List.pairwise_cons.mp honce).1 e List.mem_cons_self
    cases he : p e
    · cases hf : p f <;> simp [he, hf]
    · cases hf : p f
      · simp [he, hf]
      · exact absurd ⟨hf, he⟩ hnot
  | trans h _ ih ih' =>
    rw [ih honce, ih' ((h.pairwise_iff fun hne hboth => hne hboth.symm).mp honce)]

namespace Entries

open LevelTable

variable {t t' : Entries α}

theorem put_of_absent {level : Numeral} {a : α} (h : ∀ e ∈ t, e.1.toInt ≠ level.toInt) :
    t.put level a = t ++ [(level, a)] := by
  induction t with
  | nil => rfl
  | cons e t ih =>
    rw [List.forall_mem_cons] at h
    rw [put, if_neg h.1, ih h.2]
    rfl

theorem map_put (f : α → β) (level : Numeral) (a : α) (t : Entries α) :
    (t.put level a).map (fun e => (e.1, f e.2)) =
      Entries.put level (f a) (t.map fun e => (e.1, f e.2)) := by
  induction t with
  | nil => rfl
  | cons e t ih =>
    rw [List.map_cons, put, put]
    split
    · rfl
    · rw [List.map_cons, ih]

theorem put_perm (level : Numeral) (a : α) (h : t.Perm t') (ht : Apart t) :
    (t.put level a).Perm (t'.put level a) := by
  induction h with
  | nil => exact List.Perm.refl _
  | cons e h ih =>
    rw [put, put]
    split
    · exact h.cons _
    · exact (ih (List.pairwise_cons.mp ht).2).cons _
  | swap e f t =>
    have hne : f.1.toInt ≠ e.1.toInt := (List.pairwise_cons.mp ht).1 e List.mem_cons_self
    by_cases he : e.1.toInt = level.toInt
    · have hf : ¬ f.1.toInt = level.toInt := fun hf => hne (hf.trans he.symm)
      simp only [put, if_pos he, if_neg hf]
      exact List.Perm.swap _ _ _
    · by_cases hf : f.1.toInt = level.toInt
      · simp only [put, if_neg he, if_pos hf]
        exact List.Perm.swap _ _ _
      · simp only [put, if_neg he, if_neg hf]
        exact List.Perm.swap _ _ _
  | trans h _ ih ih' => exact (ih ht).trans (ih' (ht.perm h))

theorem put_perm_set (level : Numeral) (a : α) {t : LevelTable α} (h : Ascending t) :
    (Entries.put level a t).Perm (set level a t) := by
  induction t with
  | nil => exact List.Perm.refl _
  | cons e t ih =>
    obtain ⟨habove, ht⟩ := List.pairwise_cons.mp h
    by_cases he : e.1.toInt = level.toInt
    · rw [put, LevelTable.set, if_pos he, if_pos he]
    · rw [put, LevelTable.set, if_neg he, if_neg he]
      by_cases hlt : level.toInt < e.1.toInt
      · have habsent : ∀ f ∈ t, f.1.toInt ≠ level.toInt := fun f hf =>
          (hlt.trans (habove f hf)).ne'
        rw [if_pos hlt, put_of_absent habsent]
        exact List.perm_append_singleton (level, a) (e :: t)
      · rw [if_neg hlt]
        exact (ih ht).cons _

/-- Entries and a table that hold the same hold the same after a level has been set in both. -/
theorem put_perm_set_of_perm (level : Numeral) (a : α) {t' : LevelTable α} (h : t.Perm t')
    (ht' : Ascending t') : (t.put level a).Perm (set level a t') :=
  (put_perm level a h (ht'.apart.perm h.symm)).trans (put_perm_set level a ht')

theorem at?_eq_of_perm (h : t.Perm t') (ht : Apart t) (level : ℤ) : t.at? level = t'.at? level := by
  rw [at?, at?, find?_eq, find?_eq]
  congr 1
  apply find?_eq_of_perm h
  refine ht.imp fun {e f} hne hboth => hne ?_
  exact (of_decide_eq_true hboth.1).trans (of_decide_eq_true hboth.2).symm

theorem atValue?_eq_of_perm (h : t.Perm t') (ht : Apart t) (level : Value) :
    t.atValue? level = t'.atValue? level := by
  rw [atValue?, atValue?]
  congr 1
  apply find?_eq_of_perm h
  exact ht.imp fun {e f} hne hboth => hne (Value.eq_of_same_int hboth.1 hboth.2)

theorem get_of_at? {level : ℤ} {a : α} (h : t.at? level = some a) : t.get level = .ok a := by
  rw [get, h]

/-- Sorting entries gives the table that holds the same. -/
theorem ascending_eq_of_perm {t' : LevelTable α} (h : t.Perm t') (ht' : Ascending t') :
    t.ascending = t' := by
  have hsorted : t.ascending.Pairwise fun e f => e.1.toInt ≤ f.1.toInt := by
    refine (List.pairwise_mergeSort ?_ ?_ t).imp of_decide_eq_true
    · intro e f g hef hfg
      exact decide_eq_true ((of_decide_eq_true hef).trans (of_decide_eq_true hfg))
    · intro e f
      rw [Bool.or_eq_true, decide_eq_true_eq, decide_eq_true_eq]
      exact le_total _ _
  have hp : t.ascending.Perm t' := (List.mergeSort_perm t _).trans h
  refine List.Perm.eq_of_pairwise ?_ hsorted (ht'.imp le_of_lt) hp
  intro e f he hf hef hfe
  exact ht'.apart.eq_of_toInt_eq (hp.subset he) hf (le_antisymm hef hfe)

end Entries

end LoopTiling
