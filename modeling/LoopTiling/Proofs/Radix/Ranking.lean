import LoopTiling.Proofs.Outcome
import LoopTiling.Proofs.Printing
import LoopTiling.Proofs.Radix.Arrangement

/-!
# Ranks of orderings

An ordering is ranked by looking for each of its items among those that are left, where the first one that
is equal counts. Whatever equality is, a rank that is returned lies below the factorial, and the
arrangement that it names is equal to the ordering item by item. Where equality is an equivalence, a rank
is returned exactly for the orderings in which every value occurs as often as among the items.
-/
namespace LoopTiling

namespace Radix

variable {α : Type} {same : α → α → Prop} {placeOf : α → List α → Option ℕ}

theorem rankOf_cons_eq_ok {items rest : List α} {x : α} {rank : ℕ} :
    rankOf placeOf items (x :: rest) = .ok rank ↔ ∃ k higher, placeOf x items = some k ∧
      rankOf placeOf (items.eraseIdx k) rest = .ok higher ∧ k + items.length * higher = rank := by
  rw [rankOf]
  cases placeOf x items with
  | none => simp
  | some k => simp only [bind_eq_ok, pure_eq_ok, Option.some.injEq, ↓existsAndEq, true_and]

/-- Whether what a search finds is always the same as what it looks for. -/
def Finds (same : α → α → Prop) (placeOf : α → List α → Option ℕ) : Prop :=
  ∀ x items k, placeOf x items = some k → ∃ hk : k < items.length, same items[k] x

/-- A rank that is returned is in range and names an arrangement that is the same item by item. -/
theorem Finds.of_rankOf (hfind : Finds same placeOf) {items ordering : List α} {rank : ℕ}
    (hlen : ordering.length = items.length) (hrank : rankOf placeOf items ordering = .ok rank) :
    rank < factorial items.length ∧ List.Forall₂ same (unrank items rank) ordering := by
  induction ordering generalizing items rank with
  | nil =>
    obtain rfl : items = [] := List.eq_nil_of_length_eq_zero hlen.symm
    obtain rfl : 0 = rank := Except.ok.inj hrank
    exact ⟨Nat.one_pos, .nil⟩
  | cons x rest ih =>
    obtain ⟨k, higher, hplace, hhigher, rfl⟩ := rankOf_cons_eq_ok.mp hrank
    obtain ⟨hk, hsame⟩ := hfind x items k hplace
    have hn : items.length = rest.length + 1 := hlen.symm
    have hrest := length_eraseIdx_of_length_eq hn hk
    obtain ⟨hlt, hall⟩ := ih hrest.symm hhigher
    rw [hrest] at hlt
    -- The place is the digit to the radix of all items, the rank of the others is the quotient.
    have hmod : (k + items.length * higher) % (rest.length + 1) = k := by
      rw [hn, Nat.add_mul_mod_self_left, Nat.mod_eq_of_lt (by omega)]
    have hdiv : (k + items.length * higher) / (rest.length + 1) = higher := by
      rw [hn, Nat.add_mul_div_left _ _ (Nat.succ_pos _), Nat.div_eq_of_lt (by omega), Nat.zero_add]
    obtain ⟨hpick, hstep⟩ := unrankFrom_succ hn (k + items.length * higher)
    simp only [hmod, hdiv] at hstep
    refine ⟨?_, ?_⟩
    · calc k + items.length * higher
          < items.length * (higher + 1) := by rw [Nat.mul_succ]; omega
        _ ≤ items.length * factorial rest.length := Nat.mul_le_mul_left _ hlt
        _ = factorial items.length := by rw [hn, factorial]
    · rw [unrank, hrest] at hall
      have hcons : unrank items (k + items.length * higher : ℕ) =
          items[k] :: unrankFrom rest.length (items.eraseIdx k) higher := by
        rw [← hstep, unrank, hn]
      exact hcons ▸ .cons hsame hall

end Radix

namespace Value

instance (v w : Value) (b : Bool) : Decidable (v.equal w = .ok b) :=
  decidable_of_iff ((v.equal w).toOption = some b) (by cases v.equal w <;> simp [Except.toOption])

/-- Whether a comparison of two values has the outcome that they are equal. -/
def agrees (v w : Value) : Bool := (v.equal w).toOption.getD false

theorem agrees_iff {v w : Value} : v.agrees w ↔ v.equal w = .ok true := by
  rw [agrees]
  cases v.equal w <;> simp [Except.toOption]

/-- How often values equal to a given one occur in a list. -/
def occurrences (v : Value) (vs : List Value) : ℕ := vs.countP fun w => w.agrees v

/-- Whether two lists are rearrangements of each other: every value occurs as often in the one as in the
other. -/
def SameContents (vs ws : List Value) : Prop := ∀ v ∈ vs ++ ws, occurrences v vs = occurrences v ws

instance (vs ws : List Value) : Decidable (SameContents vs ws) :=
  inferInstanceAs (Decidable (∀ v ∈ vs ++ ws, occurrences v vs = occurrences v ws))

/-- Values of which all comparisons have an outcome, so that equality is an equivalence among them. -/
structure Comparable (vs : List Value) : Prop where
  decided : ∀ v ∈ vs, ∀ w ∈ vs, ∃ b, v.equal w = .ok b
  refl : ∀ v ∈ vs, v.equal v = .ok true
  symm : ∀ v ∈ vs, ∀ w ∈ vs, v.equal w = .ok true → w.equal v = .ok true
  trans : ∀ u ∈ vs, ∀ v ∈ vs, ∀ w ∈ vs, u.equal v = .ok true → v.equal w = .ok true →
    u.equal w = .ok true

variable {vs ws : List Value}

theorem Comparable.subset (h : Comparable vs) (hs : ws ⊆ vs) : Comparable ws where
  decided v hv w hw := h.decided v (hs hv) w (hs hw)
  refl v hv := h.refl v (hs hv)
  symm v hv w hw := h.symm v (hs hv) w (hs hw)
  trans u hu v hv w hw := h.trans u (hs hu) v (hs hv) w (hs hw)

/-- Equal values are equal to the same values. -/
theorem Comparable.agrees_congr (h : Comparable vs) {u v w : Value} (hu : u ∈ vs) (hv : v ∈ vs)
    (hw : w ∈ vs) (he : u.equal v = .ok true) : u.agrees w = v.agrees w := by
  rw [Bool.eq_iff_iff, agrees_iff, agrees_iff]
  exact ⟨h.trans v hv u hu w hw (h.symm u hu v hv he), h.trans u hu v hv w hw he⟩

theorem occurrences_cons (v w : Value) (ws : List Value) :
    occurrences v (w :: ws) = occurrences v ws + if w.agrees v then 1 else 0 := List.countP_cons

theorem occurrences_eraseIdx (v : Value) {k : ℕ} (hk : k < vs.length) :
    occurrences v vs = occurrences v (vs.eraseIdx k) + if vs[k].agrees v then 1 else 0 := by
  rw [← occurrences_cons]
  exact ((List.getElem_cons_eraseIdx_perm hk).countP_eq _).symm

/-- Lists that are equal item by item have the same contents. -/
theorem Comparable.occurrences_eq {all : List Value} (h : Comparable all) {u : Value} (hu : u ∈ all)
    (he : List.Forall₂ (fun v w => v.equal w = .ok true) vs ws) (hvs : vs ⊆ all) (hws : ws ⊆ all) :
    occurrences u vs = occurrences u ws := by
  induction he with
  | nil => rfl
  | @cons v w vs ws hvw _ ih =>
    obtain ⟨hv, hvs'⟩ := List.cons_subset.mp hvs
    obtain ⟨hw, hws'⟩ := List.cons_subset.mp hws
    have hagree : v.agrees u = w.agrees u := h.agrees_congr hv hw hu hvw
    rw [occurrences_cons, occurrences_cons, hagree, ih hvs' hws']

end Value

namespace Radix

open Value

theorem finds_placeOf : Finds (fun v w => v.equal w = .ok true) placeOf := by
  intro x items
  induction items with
  | nil => exact nofun
  | cons w ws ih =>
    intro k hk
    rw [placeOf] at hk
    split at hk
    · next hw =>
      obtain rfl : 0 = k := Option.some.inj hk
      exact ⟨Nat.succ_pos _, hw⟩
    · obtain ⟨k', hk', rfl⟩ := Option.map_eq_some_iff.mp hk
      obtain ⟨hlt, hsame⟩ := ih k' hk'
      exact ⟨Nat.succ_lt_succ hlt, hsame⟩
    · cases hk

/-- Where all comparisons have an outcome, a value that occurs is found. -/
theorem exists_placeOf {v : Value} {ws : List Value} (hdecided : ∀ w ∈ ws, ∃ b, w.equal v = .ok b)
    (hpos : 0 < occurrences v ws) : ∃ k, placeOf v ws = some k := by
  induction ws with
  | nil => exact absurd hpos (Nat.lt_irrefl 0)
  | cons w ws ih =>
    rw [List.forall_mem_cons] at hdecided
    obtain ⟨⟨b, hb⟩, hrest⟩ := hdecided
    rw [placeOf, hb]
    cases b with
    | true => exact ⟨0, rfl⟩
    | false =>
      have hdiffer : ¬ w.agrees v := by simp [agrees_iff, hb]
      rw [occurrences_cons, if_neg hdiffer] at hpos
      obtain ⟨k, hk⟩ := ih hrest hpos
      exact ⟨k + 1, by simp [hk]⟩

/-- An ordering with the contents of the items has as many of them and is ranked. -/
theorem exists_rankOf {items ordering : List Value} (h : Comparable (items ++ ordering))
    (hsame : SameContents items ordering) :
    ordering.length = items.length ∧ ∃ rank, rankOf placeOf items ordering = .ok rank := by
  induction ordering generalizing items with
  | nil =>
    cases items with
    | nil => exact ⟨rfl, 0, rfl⟩
    | cons v vs =>
      have hself : v.agrees v := agrees_iff.mpr (h.refl v List.mem_cons_self)
      have hcount := hsame v List.mem_cons_self
      rw [occurrences_cons, if_pos hself] at hcount
      cases hcount
  | cons x rest ih =>
    have hx : x ∈ items ++ x :: rest := List.mem_append_right _ List.mem_cons_self
    have hpos : 0 < occurrences x items := by
      rw [hsame x hx, occurrences_cons, if_pos (agrees_iff.mpr (h.refl x hx))]
      exact Nat.succ_pos _
    obtain ⟨k, hplace⟩ :=
      exists_placeOf (fun w hw => h.decided w (List.mem_append_left _ hw) x hx) hpos
    obtain ⟨hk, hfound⟩ := finds_placeOf x items k hplace
    have hsubset : items.eraseIdx k ++ rest ⊆ items ++ x :: rest :=
      List.append_subset.mpr ⟨List.Subset.trans List.eraseIdx_subset (List.subset_append_left _ _),
        List.Subset.trans (List.subset_cons_self x rest) (List.subset_append_right _ _)⟩
    -- What is found and what is looked for take the same count from either side.
    have hsame' : SameContents (items.eraseIdx k) rest := by
      intro v hv
      have hagree : items[k].agrees v = x.agrees v :=
        h.agrees_congr (List.mem_append_left _ (List.getElem_mem hk)) hx (hsubset hv) hfound
      have hcount := hsame v (hsubset hv)
      rw [occurrences_eraseIdx v hk, occurrences_cons, hagree] at hcount
      exact Nat.add_right_cancel hcount
    obtain ⟨hlen, higher, hhigher⟩ := ih (h.subset hsubset) hsame'
    refine ⟨?_, _, rankOf_cons_eq_ok.mpr ⟨k, higher, hplace, hhigher, rfl⟩⟩
    rw [List.length_cons, hlen, List.length_eraseIdx_add_one hk]

theorem rankValues_eq_ok {items ordering : List Value} {rank : ℕ} :
    rankValues items ordering = .ok rank ↔
      ordering.length = items.length ∧ rankOf placeOf items ordering = .ok rank := by
  rw [rankValues]
  split
  · next hlen => simp [hlen]
  · next hlen =>
    rw [not_ne_iff] at hlen
    cases rankOf placeOf items ordering <;> simp [hlen]

theorem unrankValue_of_index? (items : List Value) {v : Value} {rank : ℤ}
    (hv : v.index? = some rank) : unrankValue items v = .ok (unrank items rank) := by
  rw [unrankValue, hv]
  cases items <;> rfl

theorem kind_of_rankValues [Text.DigitLimit] {items ordering : List Value} {fault : Fault}
    (h : rankValues items ordering = .error fault) : fault.kind = .value := by
  rw [rankValues] at h
  split at h
  · obtain rfl := Except.error.inj h
    exact Fault.kind_eq_value rfl
  · split at h
    · cases h
    · obtain rfl := Except.error.inj h
      exact Fault.kind_eq_value rfl

/-- Among values whose equality is an equivalence an ordering has a rank if and only if it is a
rearrangement of the items, and is refused as a wrong value otherwise. The rank is below the factorial, and
the arrangement that it names is equal to the ordering item by item. -/
theorem rankValues_returns_iff [Text.DigitLimit] {items ordering : List Value}
    (h : Comparable (items ++ ordering)) :
    ((∃ rank, rankValues items ordering = .ok rank) ↔ SameContents items ordering) ∧
    (∀ fault, rankValues items ordering = .error fault → fault.kind = .value) ∧
    ∀ rank, rankValues items ordering = .ok rank → rank < factorial items.length ∧
      ∃ order, unrankValue items (.int rank) = .ok order ∧
        List.Forall₂ (fun v w => v.equal w = .ok true) order ordering := by
  refine ⟨⟨?_, fun hsame => ?_⟩, fun fault => kind_of_rankValues, fun rank hrank => ?_⟩
  · rintro ⟨rank, hrank⟩ v hv
    obtain ⟨hlen, hof⟩ := rankValues_eq_ok.mp hrank
    have hperm := perm_unrank items rank
    have hcount := h.occurrences_eq hv (finds_placeOf.of_rankOf hlen hof).2
      (List.Subset.trans hperm.subset (List.subset_append_left _ _)) (List.subset_append_right _ _)
    rw [← hcount]
    exact (hperm.countP_eq _).symm
  · obtain ⟨hlen, rank, hrank⟩ := exists_rankOf h hsame
    exact ⟨rank, rankValues_eq_ok.mpr ⟨hlen, hrank⟩⟩
  · obtain ⟨hlen, hof⟩ := rankValues_eq_ok.mp hrank
    obtain ⟨hlt, hequal⟩ := finds_placeOf.of_rankOf hlen hof
    exact ⟨hlt, _, unrankValue_of_index? items rfl, hequal⟩

/-- Items of which two are equal though they differ, as a number and a truth value. -/
def sampleItems : List Value := [.int 1, .text "a", .flag true, .list [.int 0]]

def sampleOrdering : List Value := [.flag true, .list [.flag false], .int 1, .text "a"]

theorem rankValues_returns_iff_sample :
    (∃ rank < 24, rankValues sampleItems sampleOrdering = .ok rank ∧
      ∃ order, unrankValue sampleItems (.int rank) = .ok order ∧
        List.Forall₂ (fun v w => v.equal w = .ok true) order sampleOrdering) ∧
    ∀ rank, rankValues sampleItems (.flag false :: sampleOrdering.tail) ≠ .ok rank := by
  have hcomparable : Comparable (sampleItems ++ sampleOrdering) :=
    ⟨by decide +kernel, by decide +kernel, by decide +kernel, by decide +kernel⟩
  have hforeign : Comparable (sampleItems ++ .flag false :: sampleOrdering.tail) :=
    ⟨by decide +kernel, by decide +kernel, by decide +kernel, by decide +kernel⟩
  have hranked := rankValues_returns_iff hcomparable
  have hrefused := rankValues_returns_iff hforeign
  refine ⟨?_, fun rank hrank => ?_⟩
  · obtain ⟨rank, hrank⟩ := hranked.1.mpr (by decide +kernel)
    obtain ⟨hlt, horder⟩ := hranked.2.2 rank hrank
    exact ⟨rank, hlt, hrank, horder⟩
  · exact absurd (hrefused.1.mp ⟨rank, hrank⟩) (by decide +kernel)

end Radix

end LoopTiling
