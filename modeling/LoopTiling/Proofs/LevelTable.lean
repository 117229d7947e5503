import Mathlib.Algebra.Order.Ring.Int
import LoopTiling.LevelTable
import LoopTiling.Proofs.Outcome

/-!
# Tables set up level by level

The levels of a hierarchy are set up from the innermost outward, so that a table grows at its end. A
fold over the levels succeeds exactly if every level is accepted, and it leaves a table that has,
in ascending order, what the levels put into it.
-/
namespace LoopTiling

theorem checkLevel_eq_ok {levelCount l : Numeral} {v : Value} :
    checkLevel levelCount v = .ok l ↔
      v.numeral? = some l ∧ 0 ≤ l.toInt ∧ l.toInt < levelCount.toInt := by
  rw [checkLevel]
  cases v.numeral? with
  | none => simp
  | some n =>
    by_cases h : n.toInt < 0 ∨ levelCount.toInt ≤ n.toInt
    · simp only [if_pos h, reduceCtorEq, Option.some.injEq, false_iff, not_and]
      rintro rfl
      omega
    · simp only [if_neg h, Except.ok.injEq, Option.some.injEq, iff_self_and]
      rintro rfl
      omega

namespace LevelTable

variable {α : Type}

/-- The table that holds values for levels in their plain form. -/
def ofPlaces (es : List (α × ℕ)) : LevelTable α := es.map fun (a, level) => (.plain level, a)

theorem set_of_above (level : Numeral) (a : α) {t : LevelTable α}
    (h : ∀ e ∈ t, e.1.toInt < level.toInt) : set level a t = t ++ [(level, a)] := by
  induction t with
  | nil => rfl
  | cons e t ih =>
    rw [List.forall_mem_cons] at h
    have hne : e.1.toInt ≠ level.toInt := h.1.ne
    have hnot : ¬ level.toInt < e.1.toInt := h.1.not_gt
    simp only [set, if_neg hne, if_neg hnot, ih h.2, List.cons_append]

theorem exists_set_next {β : Type} {t : LevelTable α} {k : ℕ} (ht : ∀ e ∈ t, e.1.toInt < k)
    (value? : β → Option α) (x : β) :
    ∃ t', ((value? x).elim t fun a => t.set (.plain k) a) = t' ∧
      (∀ e ∈ t', e.1.toInt < ((k + 1 : ℕ) : ℤ)) ∧ ∀ es : List (β × ℕ),
        t ++ ofPlaces (((x, k) :: es).filterMap fun e => (value? e.1).map (·, e.2)) =
          t' ++ ofPlaces (es.filterMap fun e => (value? e.1).map (·, e.2)) := by
  have hbelow : ∀ e ∈ t, e.1.toInt < ((k + 1 : ℕ) : ℤ) := fun e he =>
    lt_trans (ht e he) (by omega)
  cases hx : value? x with
  | none => exact ⟨t, rfl, hbelow, fun es => by simp [hx]⟩
  | some a =>
    refine ⟨t ++ [(Numeral.plain k, a)], set_of_above (.plain k) a ht, ?_, fun es => by
      simp [hx, ofPlaces]⟩
    intro e he
    rcases List.mem_append.mp he with he | he
    · exact hbelow e he
    · rw [List.mem_singleton.mp he, Numeral.toInt_plain]
      omega

/-- What a fold over consecutive levels makes of a table, when each level is accepted under a condition
and then puts at most one value of its own into the table. -/
theorem foldlM_zipIdx_eq_ok {ε β σ : Type} (put : LevelTable α → σ) (value? : β → Option α)
    {step : σ → β × ℕ → Except ε σ} {good : β × ℕ → Prop} {count : ℕ}
    (hstep : ∀ (t : LevelTable α) (e : β × ℕ) (s : σ), e.2 < count → (step (put t) e = .ok s ↔
      good e ∧ s = put ((value? e.1).elim t fun a => t.set (.plain e.2) a)))
    (xs : List β) (k : ℕ) (hk : k + xs.length ≤ count) (t : LevelTable α)
    (ht : ∀ e ∈ t, e.1.toInt < k) (s : σ) :
    (xs.zipIdx k).foldlM step (put t) = .ok s ↔ (∀ e ∈ xs.zipIdx k, good e) ∧
      s = put (t ++ ofPlaces ((xs.zipIdx k).filterMap fun e => (value? e.1).map (·, e.2))) := by
  -- The table so far ends below level `k`; this is what makes `set` append.
  induction xs generalizing k t with
  | nil =>
    rw [List.zipIdx_nil, List.foldlM_nil, pure_eq_ok]
    simp [ofPlaces, eq_comm]
  | cons x xs ih =>
    have hlen : k + 1 + xs.length ≤ count := by
      rw [List.length_cons] at hk
      omega
    have hlt : k < count := by omega
    obtain ⟨t', hset, hkeys, happend⟩ := exists_set_next ht value? x
    have hnext := ih (k + 1) hlen t' hkeys
    simp only [List.zipIdx_cons, List.foldlM_cons, bind_eq_ok, hstep t (x, k) _ hlt,
      List.forall_mem_cons, happend, hset]
    constructor
    · rintro ⟨_, ⟨hgood, rfl⟩, hrest⟩
      obtain ⟨hall, hs⟩ := hnext.mp hrest
      exact ⟨⟨hgood, hall⟩, hs⟩
    · rintro ⟨⟨hgood, hall⟩, hs⟩
      exact ⟨put t', ⟨hgood, rfl⟩, hnext.mpr ⟨hall, hs⟩⟩

end LevelTable

end LoopTiling
