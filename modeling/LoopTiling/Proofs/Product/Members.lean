import LoopTiling.Proofs.State.History
import LoopTiling.Space.Product

/-!
# Indices and members of the spaces

A space answers if its indices below its size number its members. Counters and spaces of splits
answer after every run of calls, a space of orders answers once all its levels are set up, a space of
factors once it has tables. A space of factors without tables has the size one and refuses every index
with the same fault.
-/
namespace LoopTiling

open FactorTable (IsFactorization)

namespace Space

mutual

/-- What the members of a space are: digits below the radices, factorizations of the bounds that agree
with the pins, orders that start as their levels ask for, splits that their levels allow, and for a
product one member of each of its spaces. -/
def IsMember : Space → Member → Prop
  | counter c, .digits ds => List.Forall₂ (fun r d => d < r) c.radices ds
  | factors s, .factors rows => ∃ tables, s.tables = some tables ∧ ∀ d, IsFactorization
      (tables.get d).bound.toInt.toNat (tables.get d).levelCount.toInt.toNat (tables.get d).pins
      (rows.get d)
  | orders s, .orders rows => rows.length = s.levelCount.toInt.toNat ∧
      ∀ level (hl : level < rows.length), rows[level].Perm Dim.all ∧
        ∃ p, s.patterns.at? level = some p ∧ p.baked <+: rows[level]
  | splits s, .splits table =>
      table.map Prod.fst = s.levels ∧ ∀ e ∈ table, s.Allows e.1.toInt e.2
  | product members _, .tuple parts => AreMembers members parts
  | _, _ => False

def AreMembers : List Space → List Member → Prop
  | space :: spaces, m :: ms => space.IsMember m ∧ AreMembers spaces ms
  | [], [] => True
  | _, _ => False

end

/-- The member at a place, an empty tuple if there is none. -/
def memberAt (s : Space) (i : ℕ) : Member :=
  match s.decode (.int i) with
  | .ok m => m
  | .error _ => .tuple []

theorem memberAt_of_decode {s : Space} {i : ℕ} {m : Member} (h : s.decode (.int i) = .ok m) :
    s.memberAt i = m := by
  rw [memberAt, h]

section Objects

variable [Text.DigitLimit]

/-- Whether a space is an object that some run of calls has led to. -/
inductive IsObject : Space → Prop
  | counter (cs : List (Call Value Empty)) : IsObject (.counter (CounterState.kind.run cs))
  | factors (cs : List (Call FactorState.Pinned Empty)) :
      IsObject (.factors (FactorState.kind.run cs))
  | orders (cs : List (Call Value OrderSetting)) : IsObject (.orders (OrderState.kind.run cs))
  | splits (cs : List (Call Value SplitSetting)) : IsObject (.splits (SplitState.kind.run cs))

end Objects

/-- Whether an object has all it needs to name its members: a space of factors its tables, a space of
orders a pattern for each level. -/
def IsSetUp : Space → Prop
  | factors s => s.tables.isSome
  | orders s => ∀ level : ℕ, level < s.levelCount.toInt.toNat → (s.patterns.at? level).isSome
  | _ => True

/-- Whether a space has a size and, if it is ready, its indices number its members; otherwise it
refuses them since there are no tables. -/
structure Answers (s : Space) (n : ℕ) (ready : Prop) : Prop where
  size : s.size = .ok n
  pos : 0 < n
  decode : ready → ∀ i < n, s.decode (.int i) = .ok (s.memberAt i)
  bijOn : ready → Set.BijOn s.memberAt (Set.Iio n) {m | s.IsMember m}
  empty : ¬ ready → ∀ i < n, s.decode (.int i) = .error .factorSpaceEmpty

theorem Answers.of_bijOn {α : Type} {s : Space} {n : ℕ} {ready : Prop} (make : α → Member)
    {f : ℕ → α} {S : Set α} (hsize : s.size = .ok n) (hpos : 0 < n) (hready : ready)
    (hdecode : ∀ i < n, s.decode (.int i) = .ok (make (f i)))
    (hf : Set.BijOn f (Set.Iio n) S) (hmake : Function.Injective make)
    (hmem : ∀ m, s.IsMember m ↔ ∃ a ∈ S, make a = m) : s.Answers n ready where
  size := hsize
  pos := hpos
  decode _ i hi := by rw [memberAt_of_decode (hdecode i hi), hdecode i hi]
  bijOn _ := by
    have hset : {m | s.IsMember m} = make '' S := Set.ext hmem
    rw [hset]
    exact (hmake.injOn.bijOn_image.comp hf).congr fun i hi =>
      (memberAt_of_decode (hdecode i hi)).symm
  empty hnot := absurd hready hnot

end Space

open Space

namespace CounterState

variable [Text.DigitLimit]

theorem pos_of_checkRadices {axis : ℕ} {vs : List Value} {rs : List ℕ}
    (h : Counter.checkRadices axis vs = .ok rs) : ∀ r ∈ rs, 0 < r := by
  induction vs generalizing axis rs with
  | nil =>
    rw [← Except.ok.inj h]
    exact List.forall_mem_nil _
  | cons v vs ih =>
    simp only [Counter.checkRadices, bind_eq_ok, pure_eq_ok] at h
    obtain ⟨r, hr, rest, hrest, rfl⟩ := h
    refine List.forall_mem_cons.mpr ⟨?_, ih hrest⟩
    rw [Counter.checkRadix.eq_def] at hr
    split at hr
    · cases hr
    · simp only [bind_eq_ok, refuse_eq_ok, pure_eq_ok, Bool.or_eq_true, decide_eq_true_eq] at hr
      obtain ⟨n, -, hpos, rfl⟩ := hr
      omega

theorem answers_run (cs : List (Call Value Empty)) :
    (Space.counter (kind.run cs)).Answers (kind.run cs).size True := by
  have hc : kind.run cs = ⟨(reading.run cs).base, Radix.volume (reading.run cs).base⟩ :=
    holds.run cs
  have hpos : ∀ r ∈ (reading.run cs).base, 0 < r := by
    rcases reading.base_run cs with hstart | ⟨arg, harg⟩
    · rw [hstart]
      exact List.forall_mem_nil _
    · obtain ⟨vs, -, hvs⟩ := bind_eq_ok.mp harg
      exact pos_of_checkRadices hvs
  rw [hc]
  generalize (reading.run cs).base = rs at hpos ⊢
  refine .of_bijOn .digits rfl (Radix.volume_pos hpos) trivial (fun i hi => ?_)
    (Radix.bijOn_digits rs) (fun _ _ => Member.digits.inj) fun m => ?_
  · rw [Space.decode, CounterState.decode, Value.placeIn_natCast hi]
    rfl
  · cases m <;> simp [IsMember]

end CounterState

namespace FactorState

theorem run_cases [Text.DigitLimit] (cs : List (Call Pinned Empty)) : kind.run cs = {} ∨
    ∃ tables, kind.run cs = ofTables tables ∧ ∀ d, (tables.get d).Sound := by
  have hs : kind.run cs = (reading.run cs).base.elim {} ofTables := holds.run cs
  rcases reading.base_run cs with hstart | ⟨args, hargs⟩
  · rw [hs, hstart]
    exact .inl rfl
  · obtain ⟨tables, htables, hbase⟩ := map_eq_ok.mp hargs
    rw [hs, ← hbase]
    exact .inr ⟨tables, rfl, sound_of_readTables args.2 htables⟩

theorem answers_ofTables {tables : PerDim FactorTable} (h : ∀ d, (tables.get d).Sound) :
    (Space.factors (ofTables tables)).Answers (ofTables tables).size True := by
  have hpos (d : Dim) : 0 < (tables.get d).size := (h d).size_pos
  refine .of_bijOn .factors rfl (Radix.volume_pos (sizes_pos hpos)) trivial
    (fun i hi => ?_) (FactorSpace.bijOn_rowsAt tables fun d => (h d).bijOn_row)
    (fun _ _ => Member.factors.inj) fun m => ?_
  · rw [Space.decode, decode_ofTables hpos hi]
    rfl
  · cases m <;> simp [IsMember, ofTables]

end FactorState

namespace OrderState

variable {s : OrderState} {u : Setup Numeral (List Dim × List Dim)}

theorem Covers.at? {level : ℤ} {ps : List OrderPattern} (h : Covers s level ps) {k : ℕ}
    (hk : k < ps.length) : s.patterns.at? (level + k) = some ps[k] := by
  induction ps generalizing level k with
  | nil => cases hk
  | cons p ps ih =>
    obtain ⟨hpattern, -, hrest⟩ := h
    cases k with
    | zero => simpa using hpattern
    | succ k =>
      have hnext := ih hrest (Nat.lt_of_succ_lt_succ hk)
      rwa [add_assoc, add_comm 1 (k : ℤ), ← Nat.cast_succ] at hnext

theorem Represents.isSetUp_of_size (hs : Represents s u) (hu : reading.Consistent u) {n : ℕ}
    (hsize : s.size = .ok n) : (orders s).IsSetUp := by
  rcases hs.allPatterns hu with ⟨ps, -, hlen, hcovers⟩ | ⟨fault, -, herr⟩
  · intro level hlevel
    have hat := hcovers.at? (hlen ▸ hlevel)
    rw [zero_add] at hat
    rw [hat]
    rfl
  · rw [herr] at hsize
    cases hsize

theorem Represents.exists_size (hs : Represents s u) (hu : reading.Consistent u)
    (hup : (orders s).IsSetUp) : ∃ n, s.size = .ok n := by
  have hcovers : Covers s (0 : ℕ) (patternsFor u 0 s.levelCount.toInt.toNat) := by
    refine hs.covers hu.ascending fun level _ hlt => ?_
    have hat := hup level (by omega)
    rwa [(hs.at? hu.ascending level).1, Option.isSome_map] at hat
  exact ⟨_, size_of_covers (by rw [patternsFor, List.length_map, List.length_range']) hcovers⟩

theorem isMember_iff_of_covers {ps : List OrderPattern} (h : Covers s 0 ps)
    (hlen : ps.length = s.levelCount.toInt.toNat) {rows : List (List Dim)} :
    (orders s).IsMember (.orders rows) ↔ List.Forall₂
      (fun p o => o ∈ {o : List Dim | o.Perm Dim.all ∧ p.baked <+: o}) ps rows := by
  have hat {level : ℕ} (hlevel : level < ps.length) :
      s.patterns.at? level = some ps[level] := by
    have hlookup := h.at? hlevel
    rwa [zero_add] at hlookup
  simp only [IsMember, List.forall₂_iff_get, List.get_eq_getElem, Set.mem_ofPred_eq]
  constructor
  · rintro ⟨hrows, hall⟩
    refine ⟨hlen.trans hrows.symm, fun level hl hl' => ?_⟩
    obtain ⟨hperm, p, hp, hstart⟩ := hall level hl'
    rw [hat hl, Option.some.injEq] at hp
    exact ⟨hperm, hp ▸ hstart⟩
  · rintro ⟨hrows, hall⟩
    refine ⟨hrows.symm.trans hlen, fun level hl => ?_⟩
    have hl' : level < ps.length := hrows.symm ▸ hl
    exact ⟨(hall level hl' hl).1, _, hat hl', (hall level hl' hl).2⟩

theorem answers_run [Text.DigitLimit] (cs : List (Call Value OrderSetting)) {n : ℕ}
    (hsize : (kind.run cs).size = .ok n) : (Space.orders (kind.run cs)).Answers n True := by
  have hu : reading.Consistent (reading.run cs) := Reading.consistent_run cs
  have hs : Represents (kind.run cs) (reading.run cs) := holds.run cs
  generalize kind.run cs = s at *
  rcases hs.allPatterns hu with ⟨ps, -, hlen, hcovers⟩ | ⟨fault, -, herr⟩
  · have hall := hs.perm_of_covers hu hcovers
    obtain rfl : OrderSpace.volume ps = n :=
      Except.ok.inj ((size_of_covers hlen hcovers).symm.trans hsize)
    refine .of_bijOn .orders hsize (OrderSpace.volume_pos ps) trivial (fun i hi => ?_)
      (OrderSpace.bijOn_ordersAt hall) (fun _ _ => Member.orders.inj) fun m => ?_
    · rw [Space.decode, decode_of_covers hlen hcovers hall hi]
      rfl
    · cases m with
      | orders rows => simp [isMember_iff_of_covers hcovers hlen]
      | _ => simp [IsMember]
  · rw [herr] at hsize
    cases hsize

end OrderState

theorem SplitRule.size_pos {rule : SplitRule} (h : rule.InRange) : 0 < rule.size := by
  cases rule with
  | fixed split => exact Nat.one_pos
  | free unit =>
    obtain ⟨-, hle⟩ := h
    rw [size]
    omega

namespace SplitState

theorem answers_run [Text.DigitLimit] (cs : List (Call Value SplitSetting)) :
    (Space.splits (kind.run cs)).Answers (kind.run cs).size True := by
  have hu : reading.Consistent (reading.run cs) := Reading.consistent_run cs
  have hs : Represents (kind.run cs) (reading.run cs) := holds.run cs
  generalize kind.run cs = s at *
  have hpos : 0 < s.size := by
    rw [hs.size]
    refine Radix.volume_pos fun k hk => ?_
    obtain ⟨e, he, rfl⟩ := List.mem_map.mp hk
    exact SplitRule.size_pos (inRange_of_find? hu (LevelTable.find?_of_mem hu.ascending.apart he))
  have hnum := SplitSpace.bijOn_splitsAt (reading.run cs).levels
  have hset : {ss | List.Forall₂
      (fun e s => s ∈ {s : Numeral × Numeral | s.1 = e.1 ∧ e.2.Allows s.2})
      (reading.run cs).levels ss} =
        {table | table.map Prod.fst = s.levels ∧ ∀ e ∈ table, s.Allows e.1.toInt e.2} :=
    Set.ext fun _ => hs.forall₂_iff hu.ascending
  rw [hset, ← hs.size] at hnum
  refine .of_bijOn .splits rfl hpos trivial (fun i hi => ?_) hnum
    (fun _ _ => Member.splits.inj) fun m => ?_
  · rw [Space.decode, hs.decode hu.ascending hi]
    rfl
  · cases m <;> simp [IsMember]

end SplitState

namespace Space

variable {s : Space}

theorem Answers.of_ready {n : ℕ} {ready : Prop} (h : s.Answers n True) (hready : ready) :
    s.Answers n ready := by
  rwa [eq_true hready]

theorem answers_fresh : (factors {}).Answers 1 (factors {}).IsSetUp where
  size := rfl
  pos := Nat.one_pos
  decode hup := absurd hup Bool.false_ne_true
  bijOn hup := absurd hup Bool.false_ne_true
  empty _ _ _ := rfl

variable [Text.DigitLimit]

/-- An object that has a size answers, if it is set up. -/
theorem IsObject.answers (hs : s.IsObject) {n : ℕ} (hsize : s.size = .ok n) :
    s.Answers n s.IsSetUp := by
  cases hs with
  | counter cs =>
    rw [← Except.ok.inj hsize]
    exact CounterState.answers_run cs
  | factors cs =>
    rw [← Except.ok.inj hsize]
    rcases FactorState.run_cases cs with hfresh | ⟨tables, hrun, hsound⟩
    · rw [hfresh]
      exact answers_fresh
    · rw [hrun]
      exact (FactorState.answers_ofTables hsound).of_ready rfl
  | orders cs =>
    have hu := OrderState.reading.consistent_run cs
    exact (OrderState.answers_run cs hsize).of_ready
      ((OrderState.holds.run cs).isSetUp_of_size hu hsize)
  | splits cs =>
    rw [← Except.ok.inj hsize]
    exact SplitState.answers_run cs

theorem IsObject.exists_size (hs : s.IsObject) (hup : s.IsSetUp) : ∃ n, s.size = .ok n := by
  cases hs with
  | counter cs => exact ⟨_, rfl⟩
  | factors cs => exact ⟨_, rfl⟩
  | orders cs => exact (OrderState.holds.run cs).exists_size (Reading.consistent_run cs) hup
  | splits cs => exact ⟨_, rfl⟩

end Space

end LoopTiling
