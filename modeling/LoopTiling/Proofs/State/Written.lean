import LoopTiling.Proofs.Space.Writings
import LoopTiling.Proofs.State.Factors

/-!
# A space of factors does not depend on how its request is written

A request for a space of factors is a bound, a number of levels and pins for each dimension. Whichever way
it is written, it is either refused or gives a space with the same number of members and the same member
at each index. A refusal is one of an invalid configuration, unless what it would show cannot be shown.
-/
namespace LoopTiling

/-- The name of a dimension is put before the sentence of an invalid configuration. -/
theorem Fault.kind_inDimension [Text.DigitLimit] {d : Dim} {cause : Fault}
    (h : cause.kind = .configuration) : (inDimension d cause).kind = .configuration := by
  have hcause : cause.sentence?.isSome := by
    by_contra hnone
    rw [kind, if_neg hnone] at h
    cases h
  have hsentence : (inDimension d cause).sentence?.isSome := isSome_said (by simp [hcause])
  rw [kind, if_pos hsentence]
  rfl

namespace FactorState

variable {tables tables' : PerDim FactorTable}

theorem sizes_congr (h : ∀ d, (tables.get d).rows = (tables'.get d).rows) :
    FactorSpace.sizes tables = FactorSpace.sizes tables' := by
  rw [FactorSpace.sizes_eq, FactorSpace.sizes_eq]
  exact List.map_congr_left fun d _ => congrArg List.length (h d)

theorem decode_eq_bind (tables : PerDim FactorTable) (index : Value) :
    (ofTables tables).decode index = (ofTables tables).counter.decode index >>= fun digits =>
      PerDim.ofFnM fun d => (tables.get d).rowAt (.int (digits.getD d.index 0)) := by
  have hplaces : (ofTables tables).placesFor index = (ofTables tables).counter.decode index >>=
      fun digits => return (tables, .ofFn fun d => .int (digits.getD d.index 0)) := rfl
  rw [decode, hplaces]
  cases (ofTables tables).counter.decode index with
  | error fault => rfl
  | ok digits => simp only [ok_bind, pure_bind, PerDim.get_ofFn]

/-- What a space has at an index depends on the rows of its tables only. -/
theorem decode_congr (h : ∀ d, (tables.get d).rows = (tables'.get d).rows) (index : Value) :
    (ofTables tables).decode index = (ofTables tables').decode index := by
  have hrow (d : Dim) (place : Value) :
      (tables.get d).rowAt place = (tables'.get d).rowAt place := by
    have hsize : (tables.get d).size = (tables'.get d).size := congrArg List.length (h d)
    have hget : (tables.get d).row = (tables'.get d).row :=
      funext fun i => congrArg (fun rows => rows.getD i []) (h d)
    rw [FactorTable.rowAt, FactorTable.rowAt, hsize, hget]
  have hcounter : (ofTables tables).counter = (ofTables tables').counter := by
    rw [ofTables, sizes_congr h, ofTables]
  simp only [decode_eq_bind, hcounter, hrow]

theorem reported_congr (h : ∀ d, (tables.get d).rows = (tables'.get d).rows) :
    (FactorSpace.mk (some tables)).reported = (FactorSpace.mk (some tables')).reported := by
  simp only [FactorSpace.reported, FactorTable.size, h]

theorem call_init_of_readTables [Text.DigitLimit] {args : Arguments}
    (h : readTables args = .ok tables) (hpos : ∀ d, 0 < (tables.get d).size) (s : FactorState) :
    call (.init args) s = .ok (FactorSpace.mk (some tables)).reported (ofTables tables) := by
  rw [call_init, h]
  simp only [CounterState.ofSizes_eq_ok.mpr ⟨sizes_pos hpos, rfl⟩]
  rfl

end FactorState

/-- What a space of factors is asked for: for each dimension a bound, a number of levels and pins with
different keys. -/
structure FactorRequest where
  (bounds levelCounts : Dim → Value)
  pins : Dim → List (Value × Value)
  differ : ∀ d, (Value.map (pins d)).KeysDiffer

namespace FactorRequest

section Writings

variable {q : FactorRequest} {args args' : FactorState.Arguments}

/-- The ways to write a request as the arguments of a call. -/
structure Writes (q : FactorRequest) (args : FactorState.Arguments) : Prop where
  bounds : WritesValues q.bounds args.bounds
  levelCounts : WritesValues q.levelCounts args.levelCounts
  pins : WritesAllPins q.pins args.pins

variable [Text.DigitLimit]

/-- Whether all that a refusal for a dimension may show can be shown. -/
def Shows (q : FactorRequest) (d : Dim) : Prop :=
  FactorTable.Shows (q.bounds d) (q.levelCounts d) (q.pins d)

/-- Whether a fault refuses a request as an invalid configuration, unless something that it may show
cannot be shown. -/
def Refuses (q : FactorRequest) (fault : Fault) : Prop :=
  fault.kind = .configuration ∨ fault.kind = .value ∧ ∃ d, ¬ q.Shows d

/-- The table that a request asks for in a dimension. -/
def table (q : FactorRequest) (d : Dim) : Except Fault FactorTable :=
  FactorTable.ofValues (q.bounds d) (q.levelCounts d) (.map (q.pins d))

theorem size_pos_of_table {d : Dim} {t : FactorTable} (h : q.table d = .ok t) : 0 < t.size :=
  (FactorTable.sound_of_ofValues (q.differ d) h).1.size_pos

/-- What is read for a dimension from a writing of a request. -/
structure Reads (q : FactorRequest) (d : Dim) (bound levelCount pins : Value) : Prop where
  bound : bound.SameInteger (q.bounds d)
  levelCount : levelCount.SameInteger (q.levelCounts d)
  pins : WritesPins (q.pins d) pins

theorem Writes.readTables_eq (h : q.Writes args) : ∃ bounds levelCounts pins : PerDim Value,
    FactorState.readTables args = FactorSpace.tabulate bounds levelCounts pins ∧
      ∀ d, q.Reads d (bounds.get d) (levelCounts.get d) (pins.get d) := by
  obtain ⟨bounds, hbounds, hsameBounds⟩ := exists_perDim "bounds" h.bounds
  obtain ⟨levelCounts, hcounts, hsameCounts⟩ := exists_perDim "cofactor counts" h.levelCounts
  obtain ⟨pins, hpins, hwrites⟩ := exists_readPins h.pins
  refine ⟨bounds, levelCounts, pins, ?_, fun d => ⟨hsameBounds d, hsameCounts d, hwrites d⟩⟩
  rw [FactorState.readTables, hbounds, hcounts, hpins]
  rfl

section Tables

variable {d : Dim} {bound levelCount pins : Value}

/-- The table of what is read has the rows of the requested one, and each is there if the other is. -/
theorem Reads.table_cases (h : q.Reads d bound levelCount pins) :
    (∃ t t', FactorTable.ofValues bound levelCount pins = .ok t ∧ q.table d = .ok t' ∧
      t.rows = t'.rows) ∨
    ∃ fault fault', FactorTable.ofValues bound levelCount pins = .error fault ∧
      q.table d = .error fault' := by
  obtain ⟨es, hes, hsame⟩ := exists_givenPins h.pins
  have hgiven := FactorTable.givenPins_map (q.pins d)
  cases htable : q.table d with
  | ok t' =>
    obtain ⟨t, ht, hrows⟩ := FactorTable.exists_rows_eq h.bound.symm h.levelCount.symm hgiven hes
      hsame.symm (q.differ d) htable
    exact .inl ⟨t, t', ht, rfl, hrows⟩
  | error fault' =>
    cases hread : FactorTable.ofValues bound levelCount pins with
    | ok t =>
      obtain ⟨t', ht', -⟩ := FactorTable.exists_agrees h.bound h.levelCount hes hgiven hsame hread
      rw [table, ht'] at htable
      cases htable
    | error fault => exact .inr ⟨fault, fault', rfl, rfl⟩

theorem Reads.failsOnly (h : q.Reads d bound levelCount pins) :
    FailsOnly q.Refuses (FactorSpace.nameDim d (FactorTable.ofValues bound levelCount pins)) := by
  obtain ⟨es, hes, hsame⟩ := exists_givenPins h.pins
  have hrefuses (fault : Fault)
      (hf : FactorTable.ofValues bound levelCount pins = .error fault) : q.Refuses fault := by
    have hcases := (FactorTable.failsOnly_ofValues hes fault hf).mono
      (FactorTable.Shows.of_same h.bound h.levelCount hsame) |>.kind_cases
    exact hcases.imp_right fun hvalue => ⟨hvalue.1, d, hvalue.2⟩
  cases htable : FactorTable.ofValues bound levelCount pins with
  | ok t => exact failsOnly_ok t
  | error fault =>
    rw [FactorSpace.nameDim]
    split
    · next hkind => exact failsOnly_error (.inl (Fault.kind_inDimension hkind))
    · exact failsOnly_error (hrefuses fault htable)

end Tables

/-- Tables are read from a writing of a request exactly if the request has a table for each dimension,
and then with the rows of that. -/
theorem Writes.readTables_cases (h : q.Writes args) :
    (∃ tables, FactorState.readTables args = .ok tables ∧
      ∀ d, ∃ t, q.table d = .ok t ∧ (tables.get d).rows = t.rows) ∨
    ∃ fault, FactorState.readTables args = .error fault ∧ q.Refuses fault ∧
      ∃ d cause, q.table d = .error cause := by
  obtain ⟨bounds, levelCounts, pins, heq, hreads⟩ := h.readTables_eq
  rw [heq, FactorSpace.tabulate]
  rcases PerDim.ofFnM_cases fun d => FactorSpace.nameDim d
    (FactorTable.ofValues (bounds.get d) (levelCounts.get d) (pins.get d)) with
    ⟨tables, htables⟩ | ⟨d, fault, hd, hfault, -⟩
  · refine .inl ⟨tables, htables, fun d => ?_⟩
    have hread := FactorSpace.nameDim_eq_ok.mp (PerDim.ofFnM_eq_ok.mp htables d)
    rcases (hreads d).table_cases with ⟨t, t', ht, ht', hrows⟩ | ⟨fault, cause, hfault, -⟩
    · obtain rfl : t = tables.get d := Except.ok.inj (ht.symm.trans hread)
      exact ⟨t', ht', hrows⟩
    · rw [hread] at hfault
      cases hfault
  · refine .inr ⟨fault, hfault, (hreads d).failsOnly fault hd, d, ?_⟩
    rcases (hreads d).table_cases with ⟨t, t', ht, -, -⟩ | ⟨_, cause, -, hcause⟩
    · rw [ht] at hd
      cases hd
    · exact ⟨cause, hcause⟩

/-- Two ways to write a request are both refused and leave the space as it is, or both give a space with
the same number of members and the same member at each index. -/
theorem same_space_of_writes (h : q.Writes args) (h' : q.Writes args') (s s' : FactorState) :
    (∃ journal t t', FactorState.call (.init args) s = .ok journal t ∧
      FactorState.call (.init args') s' = .ok journal t' ∧ t.size = t'.size ∧
      ∀ index, t.decode index = t'.decode index) ∨
    ∃ fault fault', FactorState.call (.init args) s = .error fault s ∧
      FactorState.call (.init args') s' = .error fault' s' ∧ q.Refuses fault ∧ q.Refuses fault' := by
  rcases h.readTables_cases with ⟨tables, htables, hrows⟩ | ⟨fault, hfault, hrefuses, d, cause, hd⟩
  · rcases h'.readTables_cases with ⟨tables', htables', hrows'⟩ | ⟨fault', -, -, d, cause, hd⟩
    · have hsame (d : Dim) : (tables.get d).rows = (tables'.get d).rows := by
        obtain ⟨t, ht, htrows⟩ := hrows d
        obtain ⟨t', ht', htrows'⟩ := hrows' d
        rw [htrows, htrows', Except.ok.inj (ht.symm.trans ht')]
      have hpos (d : Dim) : 0 < (tables.get d).size := by
        obtain ⟨t, ht, htrows⟩ := hrows d
        rw [FactorTable.size, htrows]
        exact size_pos_of_table ht
      have hpos' (d : Dim) : 0 < (tables'.get d).size := by
        rw [FactorTable.size, ← hsame]
        exact hpos d
      refine .inl ⟨_, _, _, FactorState.call_init_of_readTables htables hpos s, ?_, ?_,
        FactorState.decode_congr hsame⟩
      · rw [FactorState.reported_congr hsame]
        exact FactorState.call_init_of_readTables htables' hpos' s'
      · rw [FactorState.size_ofTables, FactorState.size_ofTables, FactorState.sizes_congr hsame]
    · obtain ⟨t, ht, -⟩ := hrows d
      rw [ht] at hd
      cases hd
  · rcases h'.readTables_cases with ⟨tables', -, hrows'⟩ | ⟨fault', hfault', hrefuses', -⟩
    · obtain ⟨t', ht', -⟩ := hrows' d
      rw [ht'] at hd
      cases hd
    · refine .inr ⟨fault, fault', ?_, ?_, hrefuses, hrefuses'⟩
      · rw [FactorState.call_init, hfault]
      · rw [FactorState.call_init, hfault']

end Writings

section Samples

def sample : FactorRequest where
  bounds := (PerDim.mk 2 1 12 4 3 6 1 : PerDim ℤ).map Value.int |>.get
  levelCounts _ := .int 3
  pins
    | .p => [(.int 0, .int 3), (.int 2, .int 2)]
    | .k => [(.int 1, .int 6)]
    | _ => []
  differ := by
    rintro d _ ⟨⟩
    cases d <;> decide

/-- The bounds as a list, the numbers of levels as one for all. -/
def sampleArguments : FactorState.Arguments where
  bounds := .list ([2, 1, 12, 4, 3, 6, 1].map .int)
  levelCounts := .int 3
  pins := .map [(.text "k", .map [(.int 1, .int 6)]),
    (.int 2, .map [(.int 0, .int 3), (.int 2, .int 2)])]

/-- The bounds as a map in another order, with the pins of a dimension in another order too. -/
def respelledArguments : FactorState.Arguments where
  bounds := .map [(.dim .n, .int 1), (.text " s", .int 1), (.int 2, .int 12), (.dim .q, .dim .c),
    (.text "C", .int 3), (.int 5, .int 6), (.text "r\n", .int 2)]
  levelCounts := .tuple (List.replicate 7 (.int 3))
  pins := .map [(.text "P", .map [(.dim .p, .word 2), (.int 0, .int 3)]), (.text "N", .null),
    (.dim .k, .map [(.int 1, .int 6)])]

theorem writes_sampleArguments : sample.Writes sampleArguments := by
  have hk : (Value.text "k").Spells .k := Value.asDim_eq_ok_iff.mp rfl
  refine ⟨.list (writesValues_items sample.bounds), .scalar trivial fun _ => .inl rfl, .map ?_ ?_⟩
  · refine List.forall_mem_cons.mpr ⟨⟨.k, hk, .map (.refl _)⟩, List.forall_mem_singleton.mpr ?_⟩
    exact ⟨.p, rfl, .map (.refl _)⟩
  · intro d
    cases d with
    | p => exact .inr ⟨_, List.mem_cons_of_mem _ List.mem_cons_self, rfl⟩
    | k => exact .inr ⟨_, List.mem_cons_self, hk⟩
    | _ => exact .inl rfl

theorem writes_respelledArguments : sample.Writes respelledArguments := by
  have hnamed {text : String} {d : Dim} (h : (Value.text text).asDim = .ok d) :
      (Value.text text).Spells d := Value.asDim_eq_ok_iff.mp h
  refine ⟨?_, .tuple (writesValues_items sample.levelCounts), .map ?_ ?_⟩
  · have hq : (Value.dim .c).SameInteger (.int 4) := .inr ⟨.dim .c, .plain 4, rfl, rfl, rfl⟩
    have hall : List.Forall₂ (fun d (e : Value × Value) =>
          e.1.Spells d ∧ e.2.SameInteger (sample.bounds d))
        [.n, .s, .p, .q, .c, .k, .r] [(.dim .n, .int 1), (.text " s", .int 1), (.int 2, .int 12),
          (.dim .q, .dim .c), (.text "C", .int 3), (.int 5, .int 6), (.text "r\n", .int 2)] :=
      .cons ⟨rfl, .inl rfl⟩ <| .cons ⟨hnamed rfl, .inl rfl⟩ <| .cons ⟨rfl, .inl rfl⟩ <|
        .cons ⟨rfl, hq⟩ <| .cons ⟨hnamed rfl, .inl rfl⟩ <| .cons ⟨rfl, .inl rfl⟩ <|
        .cons ⟨hnamed rfl, .inl rfl⟩ .nil
    exact writesValues_map hall fun d => by cases d <;> decide
  · have hlevel : (Value.dim .p).SameWhole (.int 2) :=
      .inr ⟨2, Value.isWhole_toValue (.dim .p), Value.isWhole_toValue (.plain 2)⟩
    have hfactor : (Value.word 2).SameWhole (.int 2) :=
      .inr ⟨2, ⟨rfl, fun _ => Value.noConfusion⟩, Value.isWhole_toValue (.plain 2)⟩
    have hpins : FactorTable.SamePins [(.dim .p, .word 2), (.int 0, .int 3)] (sample.pins .p) :=
      ⟨_, .swap _ _ _, .cons ⟨.inl rfl, .inl rfl⟩ (.cons ⟨hlevel, hfactor⟩ .nil)⟩
    refine List.forall_mem_cons.mpr ⟨⟨.p, hnamed rfl, .map hpins⟩, List.forall_mem_cons.mpr
      ⟨⟨.n, hnamed rfl, .none rfl rfl⟩, List.forall_mem_singleton.mpr ?_⟩⟩
    exact ⟨.k, rfl, .map (.refl _)⟩
  · intro d
    cases d with
    | p => exact .inr ⟨_, List.mem_cons_self, hnamed rfl⟩
    | k => exact .inr ⟨_, List.mem_cons_of_mem _ (List.mem_cons_of_mem _ List.mem_cons_self), rfl⟩
    | _ => exact .inl rfl

theorem same_space_of_writes_sample : ∃ journal t t',
    FactorState.call (.init sampleArguments) {} = .ok journal t ∧
      FactorState.call (.init respelledArguments) {} = .ok journal t' ∧ t.size = t'.size ∧
      ∀ index, t.decode index = t'.decode index := by
  have hsize : (match FactorState.call (.init sampleArguments) {} with
      | .ok _ s => some s.size
      | .error _ _ => none) = some 54 := by
    decide +kernel
  rcases same_space_of_writes writes_sampleArguments writes_respelledArguments {} {} with
    hok | ⟨fault, _, hfault, -⟩
  · exact hok
  · rw [hfault] at hsize
    cases hsize

/-- A bound of one dimension that is pinned at two of three levels. -/
def pinnedTwice (v : ℕ) : FactorRequest where
  bounds
    | .r => .int v
    | _ => .int 1
  levelCounts _ := .int 3
  pins
    | .r => [(.int 0, .int v), (.int 1, .int v)]
    | _ => []
  differ := by
    have hlevels : ¬ (Value.int 0).same (.int 1) := by decide
    rintro d _ ⟨⟩
    cases d with
    | r => exact List.pairwise_pair.mpr hlevels
    | _ => exact .nil

def twiceArguments (v : ℕ) (key : Value) : FactorState.Arguments where
  bounds := .list (Dim.all.map (pinnedTwice v).bounds)
  levelCounts := .int 3
  pins := .map [(key, .map ((pinnedTwice v).pins .r))]

theorem writes_twiceArguments (v : ℕ) {key : Value} (h : key.Spells .r) :
    (pinnedTwice v).Writes (twiceArguments v key) := by
  refine ⟨.list (writesValues_items _), .scalar trivial fun _ => .inl rfl, .map ?_ fun d => ?_⟩
  · exact List.forall_mem_singleton.mpr ⟨.r, h, .map (.refl _)⟩
  · cases d with
    | r => exact .inr ⟨_, List.mem_cons_self, h⟩
    | _ => exact .inl rfl

theorem exists_error_of_kind {σ α : Type} {r : EStateM.Result Fault σ α} {k : FaultKind}
    (h : (match r with
      | .ok _ _ => none
      | .error fault _ => some fault.kind) = some k) :
    ∃ fault s, r = .error fault s ∧ fault.kind = k := by
  cases r with
  | ok a s => cases h
  | error fault s => exact ⟨fault, s, rfl, Option.some.inj h⟩

/-- A refusal that would show a product of too many digits is that of the number, in each writing. A word
that stands for the bounds of all dimensions is refused for its type, a list of the word as an invalid
configuration. -/
theorem kind_of_writings :
    ((pinnedTwice (10 ^ 4000)).Writes (twiceArguments (10 ^ 4000) (.dim .r)) ∧
      (pinnedTwice (10 ^ 4000)).Writes (twiceArguments (10 ^ 4000) (.text "r")) ∧
      (∃ fault s, FactorState.call (.init (twiceArguments (10 ^ 4000) (.dim .r))) {} =
        .error fault s ∧ fault.kind = .value) ∧
      ∃ fault s, FactorState.call (.init (twiceArguments (10 ^ 4000) (.text "r"))) {} =
        .error fault s ∧ fault.kind = .value) ∧
    (∃ fault s, FactorState.call (.init ⟨.word 4, .int 1, .null⟩) {} = .error fault s ∧
      fault.kind = .type) ∧
    ∃ fault s, FactorState.call (.init ⟨.list (List.replicate 7 (.word 4)), .int 1, .null⟩) {} =
      .error fault s ∧ fault.kind = .configuration := by
  refine ⟨⟨writes_twiceArguments _ rfl, writes_twiceArguments _ (Value.asDim_eq_ok_iff.mp rfl), ?_, ?_⟩,
    ?_, ?_⟩
  all_goals
    apply exists_error_of_kind
    decide +kernel

end Samples

end FactorRequest

end LoopTiling
