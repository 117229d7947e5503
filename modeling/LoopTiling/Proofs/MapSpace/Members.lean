import LoopTiling.Proofs.MapSpace.Build

/-!
# The members of a mapspace

A member gives every dimension factors that make its bound and are the pinned ones where a level pins
one, every level an order that starts as the level says, and every spatial level a split. The indices
of a built mapspace number these members, and the tables of a decoded mapping lose nothing of them.
-/
namespace LoopTiling

namespace MapSpace

/-- Factors of a dimension, one for each level, that make its bound and agree with the pins. -/
structure Tiles (w : Workload) (h : Hierarchy) (d : Dim) (fs : List ℕ) : Prop where
  pinned : List.Forall₂ (fun l (n : ℕ) => ∀ f, l.factor? d = some f → (n : ℤ) = f.toInt) h.levels
    fs
  pos : ∀ n ∈ fs, 0 < n
  prod : fs.prod = w.bounds.get d

/-- Whether an order is one of a level: all dimensions, starting as the level says. -/
def OrderFits (w : Workload) (h : Hierarchy) (l : Level) (o : List Dim) : Prop :=
  o.Perm Dim.all ∧ startOf w h l <+: o

/-- A split that a spatial level may have: the one that the user gives, or else any number of
dimensions from the number of pruned ones on. -/
def SplitFits (w : Workload) (h : Hierarchy) (l : Level) (split : Numeral) : Prop :=
  match l.split with
  | some given => split = given
  | none => ∃ n : ℤ, split = .plain n ∧ (prunedAt w h l).length ≤ n ∧ n ≤ Dim.count

end MapSpace

/-- The members of the mapspace of a workload on a hierarchy. -/
structure Assignment.IsFor (w : Workload) (h : Hierarchy) (a : Assignment) : Prop where
  factors : ∀ d, MapSpace.Tiles w h d (a.factors.get d)
  orders : List.Forall₂ (MapSpace.OrderFits w h) h.levels a.orders
  splits : List.Forall₂ (fun e s => s.1 = .plain e.2 ∧ MapSpace.SplitFits w h e.1 s.2)
    h.spatialLevels a.splits

/-- The tables of a member: the factors by level and name, the orders by level, and the splits by
spatial level. -/
def Assignment.tables (levelCount : ℕ) (a : Assignment) : Value × Value × Value :=
  (.map ((List.range levelCount).map fun (level : ℕ) =>
      (.int level, .map (Dim.all.map fun d => (.text d.name, .int ((a.factors.get d).getD level 1))))),
    .map (a.orders.zipIdx.map fun (order, level) =>
      (.int level, .list (order.map fun d => .text d.name))),
    .map (a.splits.map fun (level, split) => (level.toValue, split.toValue)))

def Mapping.tables (m : Mapping) : Value × Value × Value := (m.loopBounds, m.permutation, m.splits)

theorem Dim.name_injective : Function.Injective Dim.name := by
  intro d d' he
  have hd := congrArg Dim.ofName? he
  rw [Dim.ofName?_name, Dim.ofName?_name] at hd
  exact Option.some.inj hd

theorem Numeral.toValue_injective : Function.Injective Numeral.toValue := by
  intro n n' he
  have hn := congrArg Value.numeral? he
  rw [Value.numeral?_toValue, Value.numeral?_toValue] at hn
  exact Option.some.inj hn

namespace MapSpace

variable {w : Workload} {h : Hierarchy}

theorem Tiles.length {d : Dim} {fs : List ℕ} (ht : Tiles w h d fs) : fs.length = h.levelCount :=
  ht.pinned.length_eq.symm

theorem Tiles.getD_pos {d : Dim} {fs : List ℕ} (ht : Tiles w h d fs) (k : ℕ) : 0 < fs.getD k 1 := by
  rw [List.getD_eq_getElem?_getD]
  cases hk : fs[k]? with
  | none => exact Nat.one_pos
  | some n => exact ht.pos n (List.mem_of_getElem? hk)

theorem tiles_iff {d : Dim} {fs : List ℕ} : Tiles w h d fs ↔ FactorTable.IsFactorization
    (w.bounds.get d) h.levelCount (FactorTable.natPins (h.pinsOf d)) fs := by
  constructor
  · intro ht
    refine ⟨ht.length, ht.pos, ht.prod, fun p hp => ?_⟩
    obtain ⟨⟨i, f⟩, hmem, rfl⟩ := List.mem_map.mp hp
    obtain ⟨l, hl, hf⟩ := Hierarchy.mem_pinsOf.mp hmem
    obtain ⟨hi, rfl⟩ := List.getElem?_eq_some_iff.mp hl
    have hi' : i < fs.length := ht.length ▸ hi
    have hn : (fs[i] : ℤ) = f.toInt := (List.forall₂_iff_get.mp ht.pinned).2 i hi hi' f hf
    show fs[i]? = some f.toInt.toNat
    rw [List.getElem?_eq_getElem hi', ← hn, Int.toNat_natCast]
  · rintro ⟨hlength, hpos, hprod, hpinned⟩
    refine ⟨List.forall₂_iff_get.mpr ⟨hlength.symm, fun i hi hi' f hf => ?_⟩, hpos, hprod⟩
    have hmem : (i, f) ∈ h.pinsOf d :=
      Hierarchy.mem_pinsOf.mpr ⟨h.levels[i], List.getElem?_eq_getElem hi, hf⟩
    have hn : fs[i] = f.toInt.toNat := by
      have hget := hpinned (i, f.toInt.toNat) (List.mem_map.mpr ⟨(i, f), hmem, rfl⟩)
      rw [List.getElem?_eq_getElem hi'] at hget
      exact Option.some.inj hget
    have hfpos : 0 < fs[i] := hpos _ (List.getElem_mem hi')
    simp only [List.get_eq_getElem]
    omega

theorem allows_ruleAt {l : Level} {split : Numeral} :
    (ruleAt w h l).Allows split ↔ SplitFits w h l split := by
  rw [ruleAt, SplitFits]
  cases l.split <;> rfl

theorem bijOn_ordersAt (w : Workload) (hlead : ∀ l ∈ h.levels, l.lead.Nodup) :
    Set.BijOn (OrderSpace.ordersAt (patternsOf w h))
      (Set.Iio (OrderSpace.volume (patternsOf w h)))
      {os | List.Forall₂ (OrderFits w h) h.levels os} := by
  have hperm : ∀ p ∈ patternsOf w h, (p.baked ++ p.free).Perm Dim.all := by
    intro p hp
    obtain ⟨l, hl, rfl⟩ := List.mem_map.mp hp
    exact OrderPattern.perm_ofLead (nodup_prunedAt w h l) (hlead l hl)
  have hnum := OrderSpace.bijOn_ordersAt hperm
  have hset : {os | List.Forall₂ (OrderFits w h) h.levels os} =
      {os | List.Forall₂ (fun (p : OrderPattern) o => o ∈ {o | o.Perm Dim.all ∧ p.baked <+: o})
        (patternsOf w h) os} := by
    ext os
    rw [patternsOf, Set.mem_ofPred_eq, Set.mem_ofPred_eq, List.forall₂_map_left_iff]
    rfl
  rw [hset]
  exact hnum

theorem bijOn_splitsAt (w : Workload) (h : Hierarchy) :
    Set.BijOn (SplitSpace.splitsAt (LevelTable.ofPlaces (rulesOf w h)))
      (Set.Iio (Radix.volume ((rulesOf w h).map fun e => e.1.size)))
      {ss | List.Forall₂ (fun e s => s.1 = .plain e.2 ∧ SplitFits w h e.1 s.2)
        h.spatialLevels ss} := by
  have hnum := SplitSpace.bijOn_splitsAt (LevelTable.ofPlaces (rulesOf w h))
  have hset : {ss | List.Forall₂ (fun e s => s.1 = .plain e.2 ∧ SplitFits w h e.1 s.2)
      h.spatialLevels ss} = {ss | List.Forall₂ (fun (e : Numeral × SplitRule) s =>
        s ∈ {s : Numeral × Numeral | s.1 = e.1 ∧ e.2.Allows s.2})
        (LevelTable.ofPlaces (rulesOf w h)) ss} := by
    ext ss
    rw [LevelTable.ofPlaces, rulesOf, Set.mem_ofPred_eq, Set.mem_ofPred_eq, List.forall₂_map_left_iff,
      List.forall₂_map_left_iff]
    simp only [Set.mem_ofPred_eq, allows_ruleAt]
  rw [LevelTable.ofPlaces, List.map_map] at hnum
  rw [hset]
  exact hnum

variable [Text.DigitLimit]

theorem AcceptsAll.bijOn_row (ha : AcceptsAll w h) (d : Dim) :
    Set.BijOn ((tablesOf w h).get d).row (Set.Iio ((tablesOf w h).get d).size)
      {fs | Tiles w h d fs} := by
  simp only [tablesOf, PerDim.get_ofFn, tiles_iff]
  exact (ha d).bijOn_row (h.nodup_pinsOf d)

/-- Every member of a mapspace has exactly one index. -/
theorem bijOn_assignmentOf (ha : Assembles w h) :
    Set.BijOn (assignmentOf w h) (Set.Iio (layout w h).size) {a | a.IsFor w h} := by
  have hfactors := FactorSpace.bijOn_rowsAt (tablesOf w h) fun d => ha.accepts.bijOn_row d
  have hparts := Radix.bijOn_pair hfactors
    (Radix.bijOn_pair (bijOn_ordersAt w ha.lead_nodup) (bijOn_splitsAt w h))
  have hmember : Set.BijOn (fun p => Assignment.mk p.1 p.2.1 p.2.2)
      ({rows | ∀ d, rows.get d ∈ {fs | Tiles w h d fs}} ×ˢ
        ({os | List.Forall₂ (OrderFits w h) h.levels os} ×ˢ
          {ss | List.Forall₂ (fun e s => s.1 = .plain e.2 ∧ SplitFits w h e.1 s.2)
            h.spatialLevels ss})) {a | a.IsFor w h} := by
    refine ⟨fun p hp => ⟨hp.1, hp.2.1, hp.2.2⟩, fun p _ p' _ he => ?_, fun a hfor => ?_⟩
    · obtain ⟨h1, h2, h3⟩ := Assignment.mk.inj he
      exact Prod.ext h1 (Prod.ext h2 h3)
    · exact ⟨(a.factors, a.orders, a.splits), ⟨hfor.factors, hfor.orders, hfor.splits⟩, rfl⟩
  have hvolume : (layout w h).size = Radix.volume (FactorSpace.sizes (tablesOf w h)) *
      (OrderSpace.volume (patternsOf w h) * Radix.volume ((rulesOf w h).map fun e => e.1.size)) := by
    simp only [size_layout, partSizes, Radix.volume, Nat.mul_one]
  rw [hvolume]
  refine (hmember.comp hparts).congr fun i hi => ?_
  -- The last part is a quotient, where the digits take a remainder.
  have hlast : i / Radix.volume (FactorSpace.sizes (tablesOf w h)) /
      OrderSpace.volume (patternsOf w h) < Radix.volume ((rulesOf w h).map fun e => e.1.size) :=
    Nat.div_lt_of_lt_mul (Nat.div_lt_of_lt_mul hi)
  simp only [Function.comp_apply, assignmentOf, partSizes, Radix.digits, List.getD_cons_zero,
    List.getD_cons_succ, Nat.mod_eq_of_lt hlast]

theorem tables_decode (ha : Assembles w h) {i : ℕ} (hi : i < (layout w h).size) :
    ((layout w h).decode (.int i)).map Mapping.tables =
      .ok ((assignmentOf w h i).tables h.levelCount) := by
  rw [decode_layout ha hi]
  rfl

end MapSpace

namespace Assignment

theorem factors_eq_of_tables {levelCount : ℕ} {a b : Assignment}
    (ha : ∀ d, (a.factors.get d).length = levelCount)
    (hb : ∀ d, (b.factors.get d).length = levelCount)
    (he : (a.tables levelCount).1 = (b.tables levelCount).1) : a.factors = b.factors := by
  simp only [tables, Value.map.injEq, List.map_inj_left, List.mem_range, Prod.mk.injEq, true_and,
    Value.int.injEq, Nat.cast_inj] at he
  refine PerDim.ext_get fun d => List.ext_getElem ((ha d).trans (hb d).symm) fun i hi hi' => ?_
  have hget := he i (ha d ▸ hi) d (Dim.mem_all d)
  rwa [List.getD_eq_getElem _ _ hi, List.getD_eq_getElem _ _ hi'] at hget

theorem orders_eq_of_tables {levelCount : ℕ} {a b : Assignment}
    (he : (a.tables levelCount).2.1 = (b.tables levelCount).2.1) : a.orders = b.orders := by
  have hname : Function.Injective fun d : Dim => Value.text d.name := fun d d' hd =>
    Dim.name_injective (Value.text.inj hd)
  have hentry : Function.Injective fun e : List Dim × ℕ =>
      (Value.int e.2, Value.list (e.1.map fun d => .text d.name)) := by
    rintro ⟨order, level⟩ ⟨order', level'⟩ hp
    simp only [Prod.mk.injEq, Value.int.injEq, Nat.cast_inj, Value.list.injEq] at hp
    rw [hp.1, List.map_injective_iff.mpr hname hp.2]
  have hzip := List.map_injective_iff.mpr hentry (Value.map.inj he)
  rw [← List.zipIdx_map_fst 0 a.orders, hzip, List.zipIdx_map_fst]

theorem splits_eq_of_tables {levelCount : ℕ} {a b : Assignment}
    (he : (a.tables levelCount).2.2 = (b.tables levelCount).2.2) : a.splits = b.splits := by
  have hentry : Function.Injective fun e : Numeral × Numeral => (e.1.toValue, e.2.toValue) := by
    rintro ⟨level, split⟩ ⟨level', split'⟩ hp
    rw [Prod.mk.injEq] at hp
    exact Prod.ext (Numeral.toValue_injective hp.1) (Numeral.toValue_injective hp.2)
  exact List.map_injective_iff.mpr hentry (Value.map.inj he)

theorem IsFor.eq_of_tables {w : Workload} {h : Hierarchy} {a b : Assignment} (ha : a.IsFor w h)
    (hb : b.IsFor w h) (he : a.tables h.levelCount = b.tables h.levelCount) : a = b := by
  have hfactors := factors_eq_of_tables (fun d => (ha.factors d).length)
    (fun d => (hb.factors d).length) (congrArg Prod.fst he)
  have horders := orders_eq_of_tables (congrArg (fun t => t.2.1) he)
  have hsplits := splits_eq_of_tables (congrArg (fun t => t.2.2) he)
  cases a
  cases b
  simp only [Assignment.mk.injEq]
  exact ⟨hfactors, horders, hsplits⟩

end Assignment

namespace MapSpace

/-- The indices of a built mapspace are in one-to-one correspondence with the members: every index
below the size is decoded, every member is met, and no two indices give the same factors, orders and
splits. -/
theorem bijOn_decode [Text.DigitLimit] {w : Workload} {h : Hierarchy} {m : MapSpace}
    (hm : build w h = .ok m) :
    Set.BijOn (fun i : ℕ => (m.decode (.int i)).map Mapping.tables) (Set.Iio m.size)
      {t | ∃ a : Assignment, a.IsFor w h ∧ t = .ok (a.tables h.levelCount)} := by
  obtain ⟨ha, rfl, -⟩ := build_eq_ok.mp hm
  have hmembers := bijOn_assignmentOf ha
  refine ⟨?_, ?_, ?_⟩
  · intro i hi
    exact ⟨assignmentOf w h i, hmembers.mapsTo hi, tables_decode ha hi⟩
  · intro i hi j hj he
    simp only [tables_decode ha hi, tables_decode ha hj, Except.ok.injEq] at he
    exact hmembers.injOn hi hj ((hmembers.mapsTo hi).eq_of_tables (hmembers.mapsTo hj) he)
  · rintro _ ⟨a, hfor, rfl⟩
    obtain ⟨i, hi, rfl⟩ := hmembers.surjOn hfor
    exact ⟨i, hi, tables_decode ha hi⟩

theorem bijOn_decode_sample :
    ∃ m, build sampleWorkload (sampleHierarchy true (some (.plain 5))) = .ok m ∧ m.size = 7776 ∧
      Set.BijOn (fun i : ℕ => (m.decode (.int i)).map Mapping.tables) (Set.Iio m.size)
        {t | ∃ a : Assignment, a.IsFor sampleWorkload (sampleHierarchy true (some (.plain 5))) ∧
          t = .ok (a.tables 4)} := by
  obtain ⟨m, hm, hsize⟩ := exists_build (w := sampleWorkload)
    (h := sampleHierarchy true (some (.plain 5))) (n := 7776) (by decide +kernel)
  exact ⟨m, hm, hsize, bijOn_decode hm⟩

end MapSpace

end LoopTiling
