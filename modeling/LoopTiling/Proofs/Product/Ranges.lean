import LoopTiling.Proofs.Printing
import LoopTiling.Proofs.Product.Trees

/-!
# Indices in range and out of range

Whatever calls have led to the objects at the leaves, a product over them that has a size names a
member by every index below it and refuses all other whole numbers as out of range. There is one
exception: a space of factors without tables has the size one and refuses every index since there are
no tables, and so does a product over it for the indices below its size. A refusal whose numbers are
too long to be shown is a fault of a value.
-/
namespace LoopTiling

theorem Fault.kind_indexRange [Text.DigitLimit] (what : String) (i : ℤ) (n : ℕ) :
    (Fault.indexRange what i (.int n)).kind =
      if Text.isShort i ∧ Text.isShort n then .index else .value := by
  have hsize : (Value.int n).text? = Text.decimal? n := rfl
  have hshown : (Fault.indexRange what i (.int n)).sentence?.isSome ↔
      Text.isShort i ∧ Text.isShort n := by
    simp [sentence?, isSome_said_iff, hsize, Text.decimal?]
  rw [kind]
  exact if_congr hshown rfl rfl

namespace Space

variable {s : Space}

/-- A space reads nothing of an index but the whole number. -/
theorem decode_of_isWhole {v : Value} {i : ℤ} (hv : v.IsWhole i) : s.decode v = s.decode (.int i) := by
  cases s with
  | counter c => simp only [Space.decode, CounterState.decode, Value.placeIn_of_isWhole hv]
  | factors f =>
    simp only [Space.decode, FactorState.decode, FactorState.placesFor, CounterState.decode,
      Value.placeIn_of_isWhole hv]
  | orders o => simp only [Space.decode, OrderState.decode, Value.placeIn_of_isWhole hv]
  | splits p => simp only [Space.decode, SplitState.decode, Value.placeIn_of_isWhole hv]
  | product members sizes => simp only [Space.decode, split, Value.placeIn_of_isWhole hv]

theorem decode_out_of_range {n : ℕ} {i : ℤ} (hup : s.IsSetUp) (hn : s.size = .ok n)
    (hi : i < 0 ∨ n ≤ i) : ∃ what, s.decode (.int i) = .error (.indexRange what i (.int n)) := by
  have hplace (what : String) : Value.placeIn what (.int i) n = _ :=
    Value.placeIn_int_of_out_of_range hi
  cases s with
  | counter c =>
    obtain rfl := Except.ok.inj hn
    exact ⟨_, by rw [Space.decode, CounterState.decode, hplace]; rfl⟩
  | factors f =>
    obtain rfl := Except.ok.inj hn
    obtain ⟨tables, htables⟩ := Option.isSome_iff_exists.mp hup
    refine ⟨"mixed-radix", ?_⟩
    have hdecode : f.counter.decode (.int i) = .error (.indexRange "mixed-radix" i (.int f.size)) := by
      rw [CounterState.decode]
      exact congrArg (Radix.digits f.counter.radices <$> ·) (hplace _)
    rw [Space.decode, FactorState.decode, FactorState.placesFor, htables, hdecode]
    rfl
  | orders o =>
    have hsize : o.size = .ok n := hn
    exact ⟨_, by rw [Space.decode, OrderState.decode, hsize, ok_bind, hplace]; rfl⟩
  | splits p =>
    obtain rfl := Except.ok.inj hn
    exact ⟨_, by rw [Space.decode, SplitState.decode, hplace]; rfl⟩
  | product members sizes =>
    obtain rfl := Except.ok.inj hn
    exact ⟨_, by rw [Space.decode, split, hplace]; rfl⟩

variable [Text.DigitLimit]

/-- The only object that has a size and is not set up is a space of factors without tables. -/
theorem IsObject.eq_fresh (hs : s.IsObject) {n : ℕ} (hn : s.size = .ok n) (hup : ¬ s.IsSetUp) :
    s = .factors {} := by
  cases hs with
  | counter cs => exact absurd trivial hup
  | factors cs =>
    rcases FactorState.run_cases cs with hfresh | ⟨tables, hrun, -⟩
    · rw [hfresh]
    · rw [hrun] at hup
      exact absurd rfl hup
  | orders cs =>
    have hu := OrderState.reading.consistent_run cs
    exact absurd ((OrderState.holds.run cs).isSetUp_of_size hu hn) hup
  | splits cs => exact absurd trivial hup

end Space

namespace ProductTree

theorem eq_fresh_of_build [Text.DigitLimit] {t : ProductTree} {s : Space} {n : ℕ}
    (ht : ∀ l ∈ t.leaves, l.IsObject) (hb : t.build = .ok s) (hn : s.size = .ok n)
    (hup : ¬ s.IsSetUp) : s = .factors {} := by
  cases t with
  | leaf l =>
    obtain rfl : l = s := Except.ok.inj hb
    exact (ht l List.mem_cons_self).eq_fresh hn hup
  | node children =>
    obtain ⟨spaces, -, hs⟩ := bind_eq_ok.mp hb
    obtain ⟨sizes, -, -, rfl⟩ := Space.ofMembers_eq_ok.mp hs
    exact absurd trivial hup

/-- Over objects that any calls have led to, a product with a size answers every whole number. Below
the size it gives a member, or refuses since some leaf has no tables; outside it refuses the number as
out of range. A space of factors without tables has the size one and refuses all numbers. -/
theorem decode_whole_number [Text.DigitLimit] {t : ProductTree} {s : Space} {n : ℕ} {v : Value}
    {i : ℤ} (ht : ∀ l ∈ t.leaves, l.IsObject) (hb : t.build = .ok s) (hn : s.size = .ok n)
    (hv : v.IsWhole i) :
    ((∀ l ∈ t.leaves, l.IsSetUp) → 0 ≤ i → i < n → ∃ m, s.decode v = .ok m ∧ s.IsMember m) ∧
      ((¬ ∀ l ∈ t.leaves, l.IsSetUp) → 0 ≤ i → i < n → s.decode v = .error .factorSpaceEmpty) ∧
      (s.IsSetUp → i < 0 ∨ n ≤ i → ∃ fault, s.decode v = .error fault ∧
        fault.kind = if Text.isShort i ∧ Text.isShort n then .index else .value) ∧
      (¬ s.IsSetUp → n = 1 ∧ s.decode v = .error .factorSpaceEmpty) ∧
      Fault.factorSpaceEmpty.kind = .configuration := by
  have hanswers := answers_of_build ht hb hn
  rw [Space.decode_of_isWhole hv]
  refine ⟨fun hup h0 hi => ?_, fun hup h0 hi => ?_, fun hup hi => ?_, fun hup => ?_, rfl⟩
  · obtain ⟨k, rfl⟩ := Int.eq_ofNat_of_zero_le h0
    have hk : k < n := Int.ofNat_lt.mp hi
    exact ⟨_, hanswers.decode hup k hk, (hanswers.bijOn hup).mapsTo hk⟩
  · obtain ⟨k, rfl⟩ := Int.eq_ofNat_of_zero_le h0
    exact hanswers.empty hup k (Int.ofNat_lt.mp hi)
  · obtain ⟨what, hfault⟩ := Space.decode_out_of_range hup hn hi
    exact ⟨_, hfault, Fault.kind_indexRange what i n⟩
  · obtain rfl := eq_fresh_of_build ht hb hn hup
    exact ⟨(Except.ok.inj hn).symm, rfl⟩

/-- A counter and, in a product of its own, a space of factors that no call has set up. -/
def sampleFreshTree : ProductTree :=
  .node [.leaf (.counter (CounterState.kind.run [.init (.list [.int 2, .int 3])])),
    .node [.leaf (.factors (FactorState.kind.run []))]]

theorem decode_whole_number_sample : ∃ s, sampleFreshTree.build = .ok s ∧ s.size = .ok 6 ∧
    s.decode (.dim .q) = .error .factorSpaceEmpty ∧
    ∃ fault, s.decode (.int (-1)) = .error fault ∧ fault.kind = .index := by
  have hobjects : ∀ l ∈ sampleFreshTree.leaves, l.IsObject := by
    simp only [sampleFreshTree, leaves, leavesAll, List.nil_append, List.cons_append,
      List.forall_mem_cons, List.not_mem_nil, false_implies, implies_true, and_true]
    exact ⟨.counter _, .factors _⟩
  have hfresh : ¬ ∀ l ∈ sampleFreshTree.leaves, l.IsSetUp := by
    intro hup
    have hnone := hup (.factors {}) (List.mem_cons_of_mem _ List.mem_cons_self)
    exact absurd hnone Bool.false_ne_true
  have hsize : (sampleFreshTree.build >>= Space.size).toOption = some 6 := by decide +kernel
  obtain ⟨s, hb, hn⟩ := bind_eq_ok.mp (eq_ok_of_toOption hsize)
  have hup : s.IsSetUp := by
    by_contra hup
    obtain rfl := eq_fresh_of_build hobjects hb hn hup
    cases hn
  have hq : (Value.dim .q).IsWhole 3 := ⟨rfl, fun _ => Value.noConfusion⟩
  have hneg : (Value.int (-1)).IsWhole (-1) := ⟨rfl, fun _ => Value.noConfusion⟩
  obtain ⟨-, hempty, -⟩ := decode_whole_number hobjects hb hn hq
  obtain ⟨-, -, hout, -⟩ := decode_whole_number hobjects hb hn hneg
  obtain ⟨fault, hfault, hkind⟩ := hout hup (.inl (by decide))
  have hshort : Text.isShort (-1) ∧ Text.isShort (6 : ℕ) := by decide +kernel
  rw [if_pos hshort] at hkind
  exact ⟨s, hb, hn, hempty hfresh (by decide) (by decide), fault, hfault, hkind⟩

/-- A counter whose size has more digits than can be shown. -/
def sampleLongCounter : CounterState :=
  CounterState.kind.run [.init (.list [.int (10 ^ 4000), .int (10 ^ 4000)])]

/-- A space of factors has a size before it has tables, and a counter whose size is too long to be shown
has no sentence to refuse an index with. -/
theorem decode_without_index_fault :
    ((Space.factors (FactorState.kind.run [])).size = .ok 1 ∧
      (Space.factors (FactorState.kind.run [])).decode (.int 0) = .error .factorSpaceEmpty ∧
      Fault.factorSpaceEmpty.kind = .configuration) ∧
    (Space.counter sampleLongCounter).size = .ok (10 ^ 8000) ∧
      ∃ fault, (Space.counter sampleLongCounter).decode (.int (-1)) = .error fault ∧
        fault.kind = .value := by
  have hsize : sampleLongCounter.size = 10 ^ 8000 := by decide +kernel
  have hcounter : (Space.counter sampleLongCounter).size = .ok (10 ^ 8000) := by
    rw [← hsize]
    rfl
  obtain ⟨what, hfault⟩ := Space.decode_out_of_range (s := .counter sampleLongCounter) (i := -1)
    trivial hcounter (.inl (by decide))
  have hlong : ¬ (Text.isShort (-1) ∧ Text.isShort (10 ^ 8000 : ℕ)) := by decide +kernel
  refine ⟨⟨rfl, rfl, rfl⟩, hcounter, _, hfault, ?_⟩
  rw [Fault.kind_indexRange, if_neg hlong]

end ProductTree

end LoopTiling
