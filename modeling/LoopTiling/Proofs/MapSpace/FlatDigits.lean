import LoopTiling.Proofs.MapSpace.Members
import LoopTiling.Proofs.Radix.Encoding

/-!
# The nested digits of an index are flat

The spaces of a mapspace take an index apart in two steps: into one part for each space, and then into
the digits of that part. Together they read the index in one mixed radix system, whose axes are the
sizes of the seven factor tables, the numbers of free arrangements of the levels, and the numbers of
splits of the spatial levels whose split is free. A level with nothing left to arrange has an axis of
size one there, and a level whose split is given has no axis at all.
-/
namespace LoopTiling.MapSpace

/-- Whether a level is spatial and its split is free. -/
def isFree (l : Level) : Bool := l.isSpatial && l.split.isNone

def splitAxes (w : Workload) (h : Hierarchy) (levels : List Level) : List ℕ :=
  (levels.filter isFree).map fun l => Dim.count + 1 - (prunedAt w h l).length

/-- The axes of a mapspace with given factor tables, least significant first. -/
def flatAxes (w : Workload) (h : Hierarchy) (tables : PerDim FactorTable) : List ℕ :=
  (Dim.all.map fun d => (tables.get d).size) ++
    (h.levels.map fun l => Radix.factorial (Dim.count - (startOf w h l).length)) ++
    splitAxes w h h.levels

/-- The split of a level whose digit is given, if it has one. -/
def splitOf (w : Workload) (h : Hierarchy) (l : Level) (digit : ℕ) : Numeral :=
  match l.split with
  | some split => split
  | none => .plain ((prunedAt w h l).length + digit)

/-- The member of a mapspace with given factor tables that digits over the flat axes name: the row of
each dimension, the rank of what is free in the order of each level, and the offset of each free split
are digits, at the place of the dimension, behind them at the place of the level, and behind those at
the number of free splits of the levels before. -/
def flatMember (w : Workload) (h : Hierarchy) (tables : PerDim FactorTable) (ds : List ℕ) :
    Assignment where
  factors := .ofFn fun d => (tables.get d).row (ds.getD d.index 0)
  orders := h.levels.zipIdx.map fun (l, place) =>
    startOf w h l ++ Radix.unrank (Dim.all.filter (· ∉ startOf w h l))
      (ds.getD (Dim.count + place) 0 : ℕ)
  splits := h.spatialLevels.map fun (l, place) => (.plain place, splitOf w h l
    (ds.getD (Dim.count + h.levelCount + (h.levels.take place).countP isFree) 0))

variable {w : Workload} {h : Hierarchy}

theorem zipWith_eq_map_zipIdx {α β : Type} (f : β → ℕ → α) {xs : List β} {ds : List ℕ}
    (hlen : ds.length = xs.length) (before after : List ℕ) :
    List.zipWith f xs ds =
      xs.zipIdx.map fun e => f e.1 ((before ++ ds ++ after).getD (before.length + e.2) 0) := by
  refine List.ext_getElem (by simp [hlen]) fun i hi _ => ?_
  have hds : i < ds.length := (List.length_zipWith.symm ▸ hi : i < min _ _).trans_le (min_le_right _ _)
  have hget : (before ++ ds ++ after).getD (before.length + i) 0 = ds[i] := by
    rw [List.append_assoc, List.getD_append_right _ _ _ _ (Nat.le_add_right _ _),
      Nat.add_sub_cancel_left, List.getD_append _ _ _ _ hds, List.getD_eq_getElem _ _ hds]
  simp only [List.getElem_zipWith, List.getElem_map, List.getElem_zipIdx, Nat.zero_add, hget]

theorem size_ruleAt_of_isFree {l : Level} (hl : isFree l) :
    (ruleAt w h l).size = Dim.count + 1 - (prunedAt w h l).length := by
  have hnone : l.split = none := Option.isNone_iff_eq_none.mp (Bool.and_eq_true_iff.mp hl).2
  simp only [ruleAt, hnone, SplitRule.size, Numeral.toInt_plain]
  omega

theorem isFree_eq_false_of_temporal {l : Level} (hs : l.isSpatial = false) : isFree l = false := by
  rw [isFree, hs, Bool.false_and]

theorem isFree_eq_false_of_pinned {l : Level} {split : Numeral} (hsplit : l.split = some split) :
    isFree l = false := by
  rw [isFree, hsplit, Option.isNone_some, Bool.and_false]

theorem isFree_of_spatial {l : Level} (hs : l.isSpatial = true) (hsplit : l.split = none) :
    isFree l = true := by
  rw [isFree, hs, hsplit]
  rfl

theorem splitAxes_cons_of_not_free {l : Level} (hl : isFree l = false) (levels : List Level) :
    splitAxes w h (l :: levels) = splitAxes w h levels := by
  rw [splitAxes, List.filter_cons_of_neg (by simp [hl]), ← splitAxes]

theorem splitAxes_cons_of_free {l : Level} (hl : isFree l = true) (levels : List Level) :
    splitAxes w h (l :: levels) = (ruleAt w h l).size :: splitAxes w h levels := by
  rw [splitAxes, List.filter_cons_of_pos hl, List.map_cons, ← splitAxes, size_ruleAt_of_isFree hl]

/-- The splits of the levels read only the digits of the free levels. -/
theorem splitsAt_eq_map (before levels : List Level) (ds : List ℕ) (offset i : ℕ)
    (hds : ds.length = offset + before.countP isFree) :
    SplitSpace.splitsAt (LevelTable.ofPlaces (((levels.zipIdx before.length).filter fun e =>
        e.1.isSpatial).map fun e => (ruleAt w h e.1, e.2))) i =
      ((levels.zipIdx before.length).filter fun e => e.1.isSpatial).map fun e =>
        (.plain e.2, splitOf w h e.1 ((ds ++ Radix.digits (splitAxes w h levels) i).getD
          (offset + ((before ++ levels).take e.2).countP isFree) 0)) := by
  -- The levels before count the digits that have been read; a level that is not free adds neither.
  induction levels generalizing before ds i with
  | nil => rfl
  | cons l levels ih =>
    have hlevels : before ++ l :: levels = before ++ [l] ++ levels := by simp
    have hlength : (before ++ [l]).length = before.length + 1 := List.length_append
    have hcount : (before ++ [l]).countP isFree = before.countP isFree + if isFree l then 1 else 0 := by
      rw [List.countP_append, List.countP_singleton]
    have hnext := ih (before ++ [l])
    rw [hlength, ← hlevels, hcount] at hnext
    rw [List.zipIdx_cons, List.filter_cons]
    cases hs : l.isSpatial with
    | false =>
      have hfree := isFree_eq_false_of_temporal hs
      rw [hfree] at hnext
      simp only [Bool.false_eq_true, if_false, splitAxes_cons_of_not_free hfree]
      exact hnext ds i hds
    | true =>
      have htake : (before ++ l :: levels).take before.length = before := List.take_left
      simp only [if_true, List.map_cons, htake]
      cases hsplit : l.split with
      | some split =>
        have hfree := isFree_eq_false_of_pinned hsplit
        have hrule : ruleAt w h l = .fixed split := by rw [ruleAt, hsplit]
        rw [hfree] at hnext
        rw [hrule, splitOf, hsplit, splitAxes_cons_of_not_free hfree]
        exact congrArg _ (hnext ds i hds)
      | none =>
        have hfree := isFree_of_spatial hs hsplit
        have hrule : ruleAt w h l = .free (.plain (prunedAt w h l).length) := by rw [ruleAt, hsplit]
        have hdigits : ds ++ Radix.digits (splitAxes w h (l :: levels)) i =
            ds ++ [i % (ruleAt w h l).size] ++
              Radix.digits (splitAxes w h levels) (i / (ruleAt w h l).size) := by
          rw [splitAxes_cons_of_free hfree, Radix.digits, List.append_assoc, List.singleton_append]
        have hhead : (ds ++ [i % (ruleAt w h l).size] ++
            Radix.digits (splitAxes w h levels) (i / (ruleAt w h l).size)).getD
              (offset + before.countP isFree) 0 = i % (ruleAt w h l).size := by
          rw [← hds, List.append_assoc, List.getD_append_right _ _ _ _ (Nat.le_refl _), Nat.sub_self]
          rfl
        have htail := hnext (ds ++ [i % (ruleAt w h l).size]) (i / (ruleAt w h l).size) (by
          rw [List.length_append, hds, hfree]
          rfl)
        rw [hdigits, hhead, ← htail, hrule, splitOf, hsplit]
        rfl

theorem map_size_patternsOf (hlead : ∀ l ∈ h.levels, l.lead.Nodup) :
    (patternsOf w h).map OrderPattern.size =
      h.levels.map fun l => Radix.factorial (Dim.count - (startOf w h l).length) := by
  rw [patternsOf, List.map_map]
  apply List.map_congr_left
  intro l hl
  have hfree := OrderPattern.length_free
    (OrderPattern.perm_ofLead (nodup_prunedAt w h l) (hlead l hl))
  rw [Function.comp_apply, OrderPattern.size, patternAt, hfree]
  rfl

theorem volume_splitAxes (w : Workload) (h : Hierarchy) :
    Radix.volume (splitAxes w h h.levels) = Radix.volume ((rulesOf w h).map fun e => e.1.size) := by
  rw [rulesOf, List.map_map, Hierarchy.spatialLevels]
  generalize h.levels = levels, 0 = k
  induction levels generalizing k with
  | nil => rfl
  | cons l levels ih =>
    rw [List.zipIdx_cons, List.filter_cons]
    cases hs : l.isSpatial with
    | false =>
      simp only [Bool.false_eq_true, if_false]
      rw [splitAxes_cons_of_not_free (isFree_eq_false_of_temporal hs), ih (k + 1)]
    | true =>
      simp only [if_true, List.map_cons, Radix.volume, ← ih (k + 1), Function.comp_apply]
      cases hsplit : l.split with
      | some split =>
        have hsize : (ruleAt w h l).size = 1 := by rw [ruleAt, hsplit, SplitRule.size]
        rw [hsize, Nat.one_mul, splitAxes_cons_of_not_free (isFree_eq_false_of_pinned hsplit)]
      | none => rw [splitAxes_cons_of_free (isFree_of_spatial hs hsplit), Radix.volume]

theorem volume_flatAxes (hlead : ∀ l ∈ h.levels, l.lead.Nodup) :
    Radix.volume (flatAxes w h (tablesOf w h)) = (layout w h).size := by
  rw [flatAxes, Radix.volume_append, Radix.volume_append, ← map_size_patternsOf hlead,
    volume_splitAxes, ← FactorSpace.sizes_eq]
  simp only [size_layout, partSizes, OrderSpace.volume, Radix.volume, Nat.mul_one, Nat.mul_assoc]

theorem rowsAt_eq_ofFn (tables : PerDim FactorTable) (after : List ℕ) (i : ℕ) :
    FactorSpace.rowsAt tables (i % Radix.volume (FactorSpace.sizes tables)) =
      .ofFn fun d => (tables.get d).row
        ((Radix.digits (FactorSpace.sizes tables) i ++ after).getD d.index 0) := by
  rw [FactorSpace.rowsAt, Radix.digits_mod_volume]
  apply PerDim.ext_get
  intro d
  have hd : d.index < (Radix.digits (FactorSpace.sizes tables) i).length := by
    rw [Radix.length_digits, FactorSpace.length_sizes]
    cases d <;> decide
  rw [PerDim.get_ofFn, PerDim.get_ofFn, List.getD_append _ _ _ _ hd]

theorem ordersAt_eq_map (w : Workload) (h : Hierarchy) (before after : List ℕ) (i : ℕ) :
    OrderSpace.ordersAt (patternsOf w h) (i % OrderSpace.volume (patternsOf w h)) =
      h.levels.zipIdx.map fun e => startOf w h e.1 ++
        Radix.unrank (Dim.all.filter (· ∉ startOf w h e.1))
          ((before ++ Radix.digits ((patternsOf w h).map OrderPattern.size) i ++ after).getD
            (before.length + e.2) 0 : ℕ) := by
  have hlen : (Radix.digits ((patternsOf w h).map OrderPattern.size) i).length =
      (patternsOf w h).length := by
    rw [Radix.length_digits, List.length_map]
  rw [OrderSpace.ordersAt_eq_zipWith, OrderSpace.volume, Radix.digits_mod_volume,
    zipWith_eq_map_zipIdx _ hlen before after]
  conv_lhs => rw [patternsOf, List.zipIdx_map, List.map_map]
  rfl

theorem splitsAt_rulesOf_eq_map (w : Workload) (h : Hierarchy) (before : List ℕ) (i : ℕ) :
    SplitSpace.splitsAt (LevelTable.ofPlaces (rulesOf w h))
        (i % Radix.volume ((rulesOf w h).map fun e => e.1.size)) =
      h.spatialLevels.map fun e => (.plain e.2, splitOf w h e.1
        ((before ++ Radix.digits (splitAxes w h h.levels) i).getD
          (before.length + (h.levels.take e.2).countP isFree) 0)) := by
  have hmap := splitsAt_eq_map (w := w) (h := h) [] h.levels before before.length
    (i % Radix.volume (splitAxes w h h.levels)) rfl
  rw [Radix.digits_mod_volume] at hmap
  rw [← volume_splitAxes]
  exact hmap

/-- What an index names is what its digits over the flat axes name. -/
theorem assignmentOf_eq_flatMember (w : Workload) (hlead : ∀ l ∈ h.levels, l.lead.Nodup) (i : ℕ) :
    assignmentOf w h i =
      flatMember w h (tablesOf w h) (Radix.digits (flatAxes w h (tablesOf w h)) i) := by
  have hflat : Radix.digits (flatAxes w h (tablesOf w h)) i =
      Radix.digits (FactorSpace.sizes (tablesOf w h)) i ++
        Radix.digits ((patternsOf w h).map OrderPattern.size)
          (i / Radix.volume (FactorSpace.sizes (tablesOf w h))) ++
        Radix.digits (splitAxes w h h.levels)
          (i / Radix.volume (FactorSpace.sizes (tablesOf w h)) / OrderSpace.volume (patternsOf w h)) := by
    rw [flatAxes, ← map_size_patternsOf hlead, ← FactorSpace.sizes_eq, Radix.digits_append,
      Radix.digits_append, Radix.volume_append, ← Nat.div_div_eq_div_mul]
    rfl
  have hlenTable : (Radix.digits (FactorSpace.sizes (tablesOf w h)) i).length = Dim.count := by
    rw [Radix.length_digits, FactorSpace.length_sizes]
  have hlenOrder (j : ℕ) : (Radix.digits (FactorSpace.sizes (tablesOf w h)) i ++
      Radix.digits ((patternsOf w h).map OrderPattern.size) j).length =
        Dim.count + h.levelCount := by
    rw [List.length_append, hlenTable, Radix.length_digits, List.length_map, patternsOf,
      List.length_map]
    rfl
  rw [hflat, assignmentOf, flatMember]
  simp only [partSizes, Radix.digits, List.getD_cons_zero, List.getD_cons_succ]
  congr 1
  · rw [List.append_assoc]
    exact rowsAt_eq_ofFn _ _ i
  · rw [← hlenTable]
    exact ordersAt_eq_map w h _ _ _
  · rw [← hlenOrder]
    exact splitsAt_rulesOf_eq_map w h _ _

/-- Whether whole numbers are indices of the spaces of factors, orders and splits. -/
structure InSpaces [Text.DigitLimit] (m : MapSpace) (f o s : ℤ) : Prop where
  factors : 0 ≤ f ∧ f < m.factors.size
  orders : ∃ n : ℕ, m.orders.size = .ok n ∧ 0 ≤ o ∧ o < n
  splits : 0 ≤ s ∧ s < m.splits.size

theorem split_layout {i : ℕ} (hi : i < (layout w h).size) :
    (layout w h).split (.int i) = .ok (Radix.digits (partSizes w h) i) := by
  have hplace : Value.placeIn "product space" (.int i) (Radix.volume (partSizes w h)) = .ok i :=
    Value.placeIn_natCast hi
  rw [split, Space.split, layout, hplace]
  rfl

section Encoding

variable [Text.DigitLimit]

theorem inSpaces_layout {f o s : ℤ} :
    InSpaces (layout w h) f o s ↔ Radix.AreDigits (partSizes w h) [f, o, s] := by
  have horders : (layout w h).orders.size = .ok (OrderSpace.volume (patternsOf w h)) :=
    OrderSpace.size_ofPatterns _
  have hsplits : (layout w h).splits.size = Radix.volume ((rulesOf w h).map fun e => e.1.size) :=
    SplitSpace.size_ofRules _ _
  simp only [Radix.AreDigits, partSizes, List.forall₂_cons, List.Forall₂.nil, and_true]
  constructor
  · rintro ⟨hf, ⟨n, hn, ho⟩, hs⟩
    rw [horders, Except.ok.injEq] at hn
    exact ⟨hf, hn ▸ ho, hsplits ▸ hs⟩
  · rintro ⟨hf, ho, hs⟩
    exact ⟨hf, ⟨_, horders, ho⟩, hsplits.symm ▸ hs⟩

/-- Three whole numbers are encoded exactly if they are indices of the three spaces, and then the split
of the index gives them back. -/
theorem encode_layout (f o s : ℤ) :
    (InSpaces (layout w h) f o s ∧ ∃ i < (layout w h).size,
        (layout w h).encode (.int f) (.int o) (.int s) = .ok (.int i) ∧
          (layout w h).split (.int i) = .ok [f.toNat, o.toNat, s.toNat]) ∨
      (¬ InSpaces (layout w h) f o s ∧ ∃ fault,
        (layout w h).encode (.int f) (.int o) (.int s) = .error fault ∧ fault.kind = .value) := by
  have hencode : (layout w h).encode (.int f) (.int o) (.int s) =
      Radix.encodeFrom ((partSizes w h).map fun (n : ℕ) => .int n) ([f, o, s].map .int) := rfl
  rw [inSpaces_layout, hencode]
  have hlen : [f, o, s].length = (partSizes w h).length := rfl
  rcases Radix.encodeFrom_int hlen with ⟨hds, hok⟩ | ⟨hds, d, r, herr⟩
  · have hlt := Radix.rank_lt_volume hds
    refine .inl ⟨hds, _, hlt, hok, ?_⟩
    rw [split_layout hlt, Radix.digits_rank hds]
    rfl
  · exact .inr ⟨hds, _, herr, Fault.kind_eq_value rfl⟩

end Encoding

/-- Decoding an index of a built mapspace is one reading of its digits over the flat axes. The parts of
the index are recorded with the mapping and are encoded to the index again; three whole numbers are
refused as such exactly if one of them is no index of its space, and otherwise they are the parts of
what they are encoded to. -/
theorem decode_eq_flatMember [Text.DigitLimit] {m : MapSpace} (hm : build w h = .ok m) :
    ∃ tables, m.factors.tables = some tables ∧ m.size = Radix.volume (flatAxes w h tables) ∧
      (∀ i < m.size, ∃ mp f o s,
        m.assignmentAt (.int i) =
          .ok (flatMember w h tables (Radix.digits (flatAxes w h tables) i)) ∧
        m.decode (.int i) = .ok mp ∧
        mp.tables = (flatMember w h tables (Radix.digits (flatAxes w h tables) i)).tables
          h.levelCount ∧
        m.split (.int i) = .ok [f, o, s] ∧
        mp.subIndices = [.int f, .int o, .int s] ∧
        m.encode (.int f) (.int o) (.int s) = .ok (.int i)) ∧
      ∀ f o s : ℤ,
        (m.InSpaces f o s → ∃ i < m.size,
          m.encode (.int f) (.int o) (.int s) = .ok (.int i) ∧
            m.split (.int i) = .ok [f.toNat, o.toNat, s.toNat]) ∧
        (¬ m.InSpaces f o s → ∃ fault,
          m.encode (.int f) (.int o) (.int s) = .error fault ∧ fault.kind = .value) := by
  obtain ⟨ha, rfl, -⟩ := build_eq_ok.mp hm
  refine ⟨tablesOf w h, rfl, (volume_flatAxes ha.lead_nodup).symm, fun i hi => ?_, fun f o s => ?_⟩
  · have hflat := assignmentOf_eq_flatMember w ha.lead_nodup i
    refine ⟨_, _, _, _, ?_, decode_layout ha hi, ?_, split_layout hi, rfl, ?_⟩
    · rw [assignmentAt_layout ha hi, hflat]
    · rw [← hflat]
      rfl
    · exact Radix.encodeFrom_digits ha.partSizes_pos hi
  · rcases encode_layout (w := w) (h := h) f o s with ⟨hin, hok⟩ | ⟨hout, herr⟩
    · exact ⟨fun _ => hok, fun hout => absurd hin hout⟩
    · exact ⟨fun hin => absurd hin hout, fun _ => herr⟩

theorem decode_eq_flatMember_sample :
    ∃ m, build sampleWorkload (sampleHierarchy true (some (.plain 5))) = .ok m ∧ m.size = 7776 ∧
      ∀ i < m.size, ∃ f o s, m.split (.int i) = .ok [f, o, s] ∧
        m.encode (.int f) (.int o) (.int s) = .ok (.int i) := by
  obtain ⟨m, hm, hsize⟩ := exists_build (w := sampleWorkload)
    (h := sampleHierarchy true (some (.plain 5))) (n := 7776) (by decide +kernel)
  obtain ⟨tables, -, -, hread, -⟩ := decode_eq_flatMember hm
  refine ⟨m, hm, hsize, fun i hi => ?_⟩
  obtain ⟨mp, f, o, s, -, -, -, hsplit, -, hencode⟩ := hread i hi
  exact ⟨f, o, s, hsplit, hencode⟩

end LoopTiling.MapSpace
