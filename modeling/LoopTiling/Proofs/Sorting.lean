import Mathlib.Data.List.Chain
import Mathlib.Data.List.Nodup
import Mathlib.Data.List.Perm.Basic
import LoopTiling.Value.Sorted
import LoopTiling.Proofs.Index

/-!
# What sorting gives

Where the order of the keys is that of ranks, sorting gives the same items with ascending ranks. The run
at the start is in order or reversed, halving finds the place behind all items of no larger rank, and
putting an item there keeps a list in order.
-/
namespace LoopTiling.Value

variable {α β : Type} [LinearOrder β]

/-- Whether keys of given items are in the order of their ranks. -/
def Ranked (key : α → Value) (rank : α → β) (items : List α) : Prop :=
  ∀ a ∈ items, ∀ b ∈ items, (key a).less (key b) = .ok (decide (rank a < rank b))

variable {key : α → Value} {rank : α → β}

theorem Ranked.subset {items items' : List α} (h : Ranked key rank items) (hs : items' ⊆ items) :
    Ranked key rank items' := fun a ha b hb => h a (hs ha) b (hs hb)

/-- Whether items have ascending ranks. -/
def Ascends (rank : α → β) (items : List α) : Prop := items.Pairwise (rank · ≤ rank ·)

/-- What goes on from a run falls or does not fall as the run does. -/
theorem exists_goOn {last : α} {items : List α} (h : Ranked key rank (last :: items))
    (falling : Bool) : ∃ run left, goOn key falling last items = .ok (run, left) ∧
      items = run ++ left ∧ (last :: run).IsChain fun a b => decide (rank b < rank a) = falling := by
  induction items generalizing last with
  | nil => exact ⟨[], [], rfl, rfl, .singleton _⟩
  | cons a items ih =>
    have hless := h a (List.mem_cons_of_mem _ List.mem_cons_self) last List.mem_cons_self
    rw [goOn, hless, ok_bind]
    split
    · next hgo =>
      obtain ⟨run, left, hrun, rfl, hchain⟩ := ih (h.subset (List.subset_cons_self _ _))
      rw [hrun]
      exact ⟨a :: run, left, rfl, rfl, .cons_cons hgo hchain⟩
    · exact ⟨[], a :: items, rfl, rfl, .singleton _⟩

theorem ascends_of_isChain {falling : Bool} {run : List α}
    (h : run.IsChain fun a b => decide (rank b < rank a) = falling) :
    Ascends rank (if falling then run.reverse else run) := by
  cases falling with
  | true =>
    have hchain : run.IsChain fun a b => rank b ≤ rank a :=
      h.imp fun a b hab => (of_decide_eq_true hab).le
    have : IsTrans α fun a b => rank b ≤ rank a := ⟨fun _ _ _ hab hbc => hbc.trans hab⟩
    exact List.pairwise_reverse.mpr hchain.pairwise
  | false =>
    have hchain : run.IsChain fun a b => rank a ≤ rank b :=
      h.imp fun a b hab => not_lt.mp (of_decide_eq_false hab)
    have : IsTrans α fun a b => rank a ≤ rank b := ⟨fun _ _ _ hab hbc => hab.trans hbc⟩
    exact hchain.pairwise

theorem exists_firstRun {items : List α} (h : Ranked key rank items) :
    ∃ run left, firstRun key items = .ok (run, left) ∧ (run ++ left).Perm items ∧
      Ascends rank run := by
  match items with
  | [] => exact ⟨[], [], rfl, .refl _, .nil⟩
  | [a] => exact ⟨[a], [], rfl, .refl _, List.pairwise_singleton _ _⟩
  | a :: b :: items =>
    have hless := h b (List.mem_cons_of_mem _ List.mem_cons_self) a List.mem_cons_self
    obtain ⟨run, left, hrun, rfl, hchain⟩ := exists_goOn (h.subset (List.subset_cons_self _ _))
      (decide (rank b < rank a))
    rw [firstRun, hless, ok_bind, hrun, ok_bind]
    refine ⟨_, left, rfl, ?_, ascends_of_isChain (.cons_cons rfl hchain)⟩
    have hperm : (if decide (rank b < rank a) then (a :: b :: run).reverse else a :: b :: run).Perm
        (a :: b :: run) := by
      split
      · exact List.reverse_perm _
      · exact .refl _
    exact hperm.append_right left

/-- Whether the items before one place have no larger rank than a given one, and those from another
place on have a larger one. -/
structure IsBetween (rank : α → β) (pivot : β) (done : List α) (low high : ℕ) : Prop where
  before : ∀ i (hi : i < done.length), i < low → rank done[i] ≤ pivot
  behind : ∀ i (hi : i < done.length), high ≤ i → pivot < rank done[i]

/-- Halving finds the place between two that lie around it. -/
theorem exists_placeFor {done : List α} {a : α} (h : Ranked key rank (a :: done))
    (hdone : Ascends rank done) {fuel low high : ℕ} (hfuel : high ≤ low + fuel) (hle : low ≤ high)
    (hhigh : high ≤ done.length) (hbetween : IsBetween rank (rank a) done low high) :
    ∃ place, placeFor key (key a) done fuel low high = .ok place ∧
      IsBetween rank (rank a) done place place := by
  induction fuel generalizing low high with
  | zero =>
    obtain rfl : high = low := by omega
    exact ⟨high, rfl, hbetween⟩
  | succ fuel ih =>
    rw [placeFor]
    split
    · next hstop =>
      obtain rfl : high = low := by omega
      exact ⟨high, rfl, hbetween⟩
    · next hgo =>
      have hmiddle : low + (high - low) / 2 < done.length := by omega
      have hascends (i j : ℕ) (hi : i < done.length) (hj : j < done.length) (hij : i ≤ j) :
          rank done[i] ≤ rank done[j] := by
        rcases Nat.lt_or_eq_of_le hij with hlt | rfl
        · exact List.pairwise_iff_getElem.mp hdone i j hi hj hlt
        · exact le_rfl
      have hless := h a List.mem_cons_self _ (List.mem_cons_of_mem _ (List.getElem_mem hmiddle))
      dsimp only
      rw [List.getElem?_eq_getElem hmiddle]
      dsimp only
      rw [hless, ok_bind]
      split
      · next hlt =>
        exact ih (by omega) (by omega) (by omega) ⟨hbetween.before, fun i hi hle =>
          (of_decide_eq_true hlt).trans_le (hascends _ i hmiddle hi hle)⟩
      · next hlt =>
        exact ih (by omega) (by omega) (by omega) ⟨fun i hi hle =>
          (hascends i _ hi hmiddle (by omega)).trans (not_lt.mp fun he => hlt (decide_eq_true he)),
          hbetween.behind⟩

theorem exists_putInOrder {done : List α} {a : α} (h : Ranked key rank (a :: done))
    (hdone : Ascends rank done) : ∃ items, putInOrder key done a = .ok items ∧
      items.Perm (a :: done) ∧ Ascends rank items := by
  have hfuel : done.length ≤ 0 + done.length := (Nat.zero_add _).ge
  obtain ⟨place, hplace, hbetween⟩ := exists_placeFor h hdone hfuel (Nat.zero_le _) (Nat.le_refl _)
    ⟨fun i _ hi => absurd hi (Nat.not_lt_zero i), fun i hi hge => absurd hi (Nat.not_lt.mpr hge)⟩
  have hbefore : ∀ b ∈ done.take place, rank b ≤ rank a := by
    intro b hb
    obtain ⟨i, hi, rfl⟩ := List.mem_take_iff_getElem.mp hb
    exact hbetween.before i _ (by omega)
  have hbehind : ∀ b ∈ done.drop place, rank a ≤ rank b := by
    intro b hb
    obtain ⟨i, hi, rfl⟩ := List.mem_drop_iff_getElem.mp hb
    exact (hbetween.behind _ _ (Nat.le_add_right place i)).le
  rw [putInOrder, hplace]
  refine ⟨_, rfl, ?_, ?_⟩
  · have hmiddle : (done.take place ++ a :: done.drop place).Perm
        (a :: (done.take place ++ done.drop place)) := List.perm_middle
    rwa [List.take_append_drop] at hmiddle
  · refine List.pairwise_append.mpr ⟨hdone.sublist (List.take_sublist _ _),
      List.pairwise_cons.mpr ⟨hbehind, hdone.sublist (List.drop_sublist _ _)⟩, fun b hb c hc => ?_⟩
    rcases List.mem_cons.mp hc with rfl | hc
    · exact hbefore b hb
    · exact (hbefore b hb).trans (hbehind c hc)

theorem exists_foldlM_putInOrder {done items : List α} (h : Ranked key rank (done ++ items))
    (hdone : Ascends rank done) : ∃ items', items.foldlM (putInOrder key) done = .ok items' ∧
      items'.Perm (done ++ items) ∧ Ascends rank items' := by
  induction items generalizing done with
  | nil => exact ⟨done, rfl, by rw [List.append_nil], hdone⟩
  | cons a items ih =>
    have hsubset : a :: done ⊆ done ++ a :: items := fun b hb =>
      (List.mem_cons.mp hb).elim (fun he => by simp [he]) (List.mem_append_left _)
    obtain ⟨done', hput, hperm, hdone'⟩ := exists_putInOrder (h.subset hsubset) hdone
    have hperm' : (done' ++ items).Perm (done ++ a :: items) :=
      (hperm.append_right items).trans List.perm_middle.symm
    obtain ⟨items', hfold, hitems, hascends⟩ := ih (h.subset hperm'.subset) hdone'
    rw [List.foldlM_cons, hput, ok_bind]
    exact ⟨items', hfold, hitems.trans hperm', hascends⟩

/-- Sorting gives the same items with ascending ranks. -/
theorem exists_sortedBy {items : List α} (h : Ranked key rank items) :
    ∃ items', sortedBy key items = .ok items' ∧ items'.Perm items ∧ Ascends rank items' := by
  obtain ⟨run, left, hrun, hperm, hascends⟩ := exists_firstRun h
  obtain ⟨items', hfold, hitems, hascends'⟩ :=
    exists_foldlM_putInOrder (h.subset hperm.subset) hascends
  rw [sortedBy, hrun, ok_bind]
  exact ⟨items', hfold, hitems.trans hperm, hascends'⟩

/-- Items with different ranks are sorted to the one arrangement of them whose ranks ascend. -/
theorem sortedBy_eq {items items' : List α} (h : Ranked key rank items) (hperm : items'.Perm items)
    (hascends : items'.Pairwise (rank · < rank ·)) : sortedBy key items = .ok items' := by
  obtain ⟨sorted, hsorted, hperm', hascends'⟩ := exists_sortedBy h
  have hperm'' : sorted.Perm items' := hperm'.trans hperm.symm
  have hnodup : (items'.map rank).Nodup := List.pairwise_map.mpr (hascends.imp ne_of_lt)
  rw [hsorted]
  refine congrArg Except.ok (hperm''.eq_of_pairwise (fun a b ha hb hab hba => ?_) hascends'
    (hascends.imp le_of_lt))
  exact List.inj_on_of_nodup_map hnodup (hperm''.subset ha) hb (hab.antisymm hba)

/-- Items in ascending order are sorted down to the same in reverse. -/
theorem sortedDown_eq_reverse {items : List α} (h : Ranked key rank items)
    (hascends : items.Pairwise (rank · < rank ·)) : sortedDown key items = .ok items.reverse := by
  rw [sortedDown, sortedBy_eq (h.subset (List.reverse_perm items).subset)
    (List.reverse_perm items).symm hascends]
  rfl

/-- Entries under places in ascending order are sorted down to the same in reverse. -/
theorem sortedDown_places (g : ℕ → Value) (n : ℕ) :
    sortedDown Prod.fst ((List.range n).map fun (i : ℕ) => (Value.int i, g i)) =
      .ok ((List.range n).map fun (i : ℕ) => (Value.int i, g i)).reverse := by
  have hranked : Ranked Prod.fst (fun e : Value × Value => e.1.index?.getD 0)
      ((List.range n).map fun (i : ℕ) => (Value.int i, g i)) := by
    intro e he e' he'
    obtain ⟨i, -, rfl⟩ := List.mem_map.mp he
    obtain ⟨j, -, rfl⟩ := List.mem_map.mp he'
    exact less_int i j
  refine sortedDown_eq_reverse hranked ?_
  rw [List.pairwise_map]
  exact List.pairwise_lt_range.imp fun hij => Int.ofNat_lt.mpr hij

end LoopTiling.Value
