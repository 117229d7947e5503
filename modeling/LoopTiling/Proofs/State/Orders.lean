import Mathlib.Algebra.BigOperators.Group.Finset.Basic
import LoopTiling.Proofs.Space.Orders
import LoopTiling.Proofs.State.Setup

/-!
# What calls make of a space of orders

After every run of calls a space of orders holds, for each level that has been set up since the
last call for the whole space, the pattern and the size that the last accepted call for the level
asks for. Once every level is set up, its indices number the lists with an order for each level
that starts as the level asks for, the size is the product of the numbers of arrangements of what
is free, and the first index leaves the free dimensions in canonical order.
-/
namespace LoopTiling.OrderState

open scoped Nat

theorem readLevel_eq_ok {count l : Numeral} {level : Value} {setting : OrderSetting}
    {pruned lead : List Dim} : readLevel count level setting = .ok (l, pruned, lead) ↔
      checkLevel count level = .ok l ∧ readSetting setting = .ok (pruned, lead) ∧ pruned.Nodup ∧
        lead.Nodup := by
  simp only [readLevel, bind_eq_ok, refuse_eq_ok, pure_eq_ok, not_not, Prod.exists, Prod.mk.injEq]
  constructor
  · rintro ⟨l, hl, pruned, lead, hread, hp, hd, rfl, rfl, rfl⟩
    exact ⟨hl, hread, hp, hd⟩
  · rintro ⟨hl, hread, hp, hd⟩
    exact ⟨l, hl, pruned, lead, hread, hp, hd, rfl, rfl, rfl⟩

/-- How calls are read: each level has pruned dimensions and those that the user puts in front. -/
def reading : Reading Value OrderSetting Numeral (List Dim × List Dim) where
  start := .plain 0
  base := checkLevelCount
  entry := readLevel
  numeral_of_entry h := by
    obtain ⟨hl, -⟩ := readLevel_eq_ok.mp h
    exact (checkLevel_eq_ok.mp hl).1

def kind [Text.DigitLimit] : Kind OrderState Value OrderSetting := ⟨{}, call, .orders⟩

def leadPattern (e : List Dim × List Dim) : OrderPattern := .ofLead e.1 e.2

/-- Whether a space holds what has been asked for, with the levels in the order in which they came.
-/
structure Represents (s : OrderState) (u : Setup Numeral (List Dim × List Dim)) : Prop where
  levelCount : s.levelCount = u.base
  entries : ∃ t : Entries (List Dim × List Dim), t.Perm u.levels ∧
    s.patterns = t.map (fun e => (e.1, leadPattern e.2)) ∧
    s.sizes = t.map fun e => (e.1, (leadPattern e.2).size)

def withPattern (s : OrderState) (l : Numeral) (p : OrderPattern) : OrderState :=
  { s with patterns := s.patterns.put l p, sizes := s.sizes.put l p.size }

variable {s : OrderState} {u : Setup Numeral (List Dim × List Dim)}

theorem init_of_error {levelCount : Value} {fault : Fault}
    (h : checkLevelCount levelCount = .error fault) : init levelCount s = .error fault s := by
  rw [init, h]
  rfl

theorem init_of_ok {levelCount : Value} {count : Numeral}
    (h : checkLevelCount levelCount = .ok count) : init levelCount s = .ok [] ⟨count, [], []⟩ := by
  rw [init, h]
  rfl

section Calls

variable [Text.DigitLimit] {level : Value} {setting : OrderSetting}

theorem setLevel_of_error {fault : Fault}
    (h : readLevel s.levelCount level setting = .error fault) :
    setLevel level setting s = .error fault s := by
  change (Update.check (readLevel s.levelCount level setting) >>= _) s = _
  rw [h]
  rfl

theorem setLevel_of_ok {l : Numeral} {e : List Dim × List Dim}
    (h : readLevel s.levelCount level setting = .ok (l, e)) :
    setLevel level setting s =
      Update.check ((leadPattern e).reported l) (s.withPattern l (leadPattern e)) := by
  change (Update.check (readLevel s.levelCount level setting) >>= _) s = _
  rw [h]
  rfl

end Calls

theorem Represents.withPattern (h : Represents s u) (hu : u.levels.Ascending) (l : Numeral)
    (e : List Dim × List Dim) :
    Represents (s.withPattern l (leadPattern e)) { u with levels := u.levels.set l e } := by
  obtain ⟨t, hperm, hpatterns, hsizes⟩ := h.entries
  refine ⟨h.levelCount, t.put l e, Entries.put_perm_set_of_perm l e hperm hu, ?_, ?_⟩
  · rw [Entries.map_put leadPattern, ← hpatterns]
    rfl
  · rw [Entries.map_put fun e => (leadPattern e).size, ← hsizes]
    rfl

theorem holds [Text.DigitLimit] : kind.Holds reading Represents where
  fresh := ⟨rfl, [], .refl _, rfl, rfl⟩
  init_refused := init_of_error
  init_accepted := by
    intro s levelCount count hcount
    have hcall : kind.call (.init levelCount) s = .ok [] ⟨count, [], []⟩ := init_of_ok hcount
    rw [Update.after, hcall]
    exact ⟨rfl, [], .refl _, rfl, rfl⟩
  level_refused := by
    intro s u level setting fault hs herr
    rw [← hs.levelCount] at herr
    exact setLevel_of_error herr
  level_accepted := by
    intro s u level setting e hasc hs hread
    rw [← hs.levelCount] at hread
    have hafter : (kind.call (.level level setting)).after s =
        s.withPattern e.1 (leadPattern e.2) :=
      Update.after_of_check (setLevel_of_ok hread)
    rw [hafter]
    exact hs.withPattern hasc e.1 e.2

/-- Whether a space holds patterns for the levels from a level on. -/
def Covers (s : OrderState) : ℤ → List OrderPattern → Prop
  | _, [] => True
  | level, p :: ps =>
    s.patterns.at? level = some p ∧ s.sizes.at? level = some p.size ∧ Covers s (level + 1) ps

theorem patternAt_of_at? {level : ℤ} {p : OrderPattern} (h : s.patterns.at? level = some p) :
    s.patternAt level = .ok p := by
  rw [patternAt, h]

theorem Covers.sizesFrom {level : ℤ} {ps : List OrderPattern} (h : Covers s level ps) :
    s.sizesFrom ps.length level = .ok (ps.map OrderPattern.size) := by
  induction ps generalizing level with
  | nil => rfl
  | cons p ps ih =>
    obtain ⟨hpattern, hsize, hrest⟩ := h
    rw [List.length_cons, OrderState.sizesFrom, patternAt_of_at? hpattern, ok_bind,
      Entries.get_of_at? hsize, ok_bind, ih hrest]
    rfl

theorem Covers.ordersFrom {level : ℤ} {ps : List OrderPattern} (h : Covers s level ps)
    (hall : ∀ p ∈ ps, (p.baked ++ p.free).Perm Dim.all) (place : ℕ) :
    s.ordersFrom ps.length level place = .ok (OrderSpace.ordersAt ps place) := by
  induction ps generalizing level place with
  | nil => rfl
  | cons p ps ih =>
    obtain ⟨hpattern, hsize, hrest⟩ := h
    rw [List.forall_mem_cons] at hall
    have hlen := OrderPattern.length_free hall.1
    rw [List.length_cons, OrderState.ordersFrom, patternAt_of_at? hpattern, ok_bind,
      OrderSpace.ordersAt]
    by_cases hfull : p.baked.length = Dim.count
    · have hfree : p.free.isEmpty := by
        rw [List.isEmpty_iff_length_eq_zero]
        omega
      rw [if_pos hfull, if_pos hfree, ih hrest hall.2]
      rfl
    · have hfree : ¬ p.free.isEmpty := by
        have hle := hall.1.length_eq
        rw [List.length_append, Dim.length_all] at hle
        rw [List.isEmpty_iff_length_eq_zero]
        omega
      rw [if_neg hfull, if_neg hfree, Entries.get_of_at? hsize, ok_bind, ih hrest hall.2]
      rfl

/-- What the orders of a level start with, as the calls ask for it: the pruned dimensions as they
are given, then those of the user that are not pruned. -/
def startAt (u : Setup Numeral (List Dim × List Dim)) (level : ℕ) : List Dim :=
  match u.levels.find? level with
  | some (pruned, lead) => pruned ++ lead.filter (· ∉ pruned)
  | none => []

def restAt (u : Setup Numeral (List Dim × List Dim)) (level : ℕ) : List Dim :=
  Dim.all.filter (· ∉ startAt u level)

def patternsFor (u : Setup Numeral (List Dim × List Dim)) (k count : ℕ) : List OrderPattern :=
  (List.range' k count).map fun level => ⟨startAt u level, restAt u level⟩

theorem Represents.at? (h : Represents s u) (hu : u.levels.Ascending) (level : ℤ) :
    s.patterns.at? level = (u.levels.find? level).map leadPattern ∧
      s.sizes.at? level = (u.levels.find? level).map fun e => (leadPattern e).size := by
  obtain ⟨t, hperm, hpatterns, hsizes⟩ := h.entries
  have hfind : LevelTable.find? level t = u.levels.find? level :=
    Entries.at?_eq_of_perm hperm (hu.apart.perm hperm.symm) level
  rw [hpatterns, hsizes, ← hfind]
  exact ⟨LevelTable.find?_map leadPattern level t,
    LevelTable.find?_map (fun e => (leadPattern e).size) level t⟩

theorem startPattern_of_find? {level : ℕ} {e : List Dim × List Dim}
    (h : u.levels.find? level = some e) :
    OrderPattern.mk (startAt u level) (restAt u level) = leadPattern e := by
  rw [restAt, startAt, h]
  rfl

theorem Represents.covers (h : Represents s u) (hu : u.levels.Ascending) {k count : ℕ}
    (hall : ∀ level, k ≤ level → level < k + count → (u.levels.find? level).isSome) :
    Covers s k (patternsFor u k count) := by
  induction count generalizing k with
  | zero => trivial
  | succ count ih =>
    obtain ⟨e, he⟩ := Option.isSome_iff_exists.mp (hall k (Nat.le_refl k) (by omega))
    have hrest := ih (k := k + 1) fun level hk hlt => hall level (by omega) (by omega)
    obtain ⟨hpattern, hsize⟩ := h.at? hu k
    rw [he] at hpattern hsize
    rw [patternsFor, List.range'_succ, List.map_cons, startPattern_of_find? he]
    refine ⟨hpattern, hsize, ?_⟩
    rw [← Nat.cast_succ]
    exact hrest

/-- The pattern of a level that has been asked for has all dimensions, each of them once. -/
theorem perm_leadPattern (hu : reading.Consistent u) {level : ℤ} {e : List Dim × List Dim}
    (he : u.levels.find? level = some e) :
    ((leadPattern e).baked ++ (leadPattern e).free).Perm Dim.all := by
  obtain ⟨l, -, hmem⟩ := LevelTable.mem_of_find? he
  obtain ⟨v, setting, l', hread, -⟩ := hu.asked (l, e) hmem
  obtain ⟨-, -, hpruned, hlead⟩ := readLevel_eq_ok.mp hread
  exact OrderPattern.perm_ofLead hpruned hlead

theorem perm_start_append_rest (hu : reading.Consistent u) {level : ℕ}
    (h : (u.levels.find? level).isSome) : (startAt u level ++ restAt u level).Perm Dim.all := by
  obtain ⟨e, he⟩ := Option.isSome_iff_exists.mp h
  have hperm := perm_leadPattern hu he
  rw [← startPattern_of_find? he] at hperm
  exact hperm

theorem forall₂_patternsFor {u : Setup Numeral (List Dim × List Dim)} {count : ℕ}
    {orders : List (List Dim)} :
    List.Forall₂ (fun p o => o ∈ {o : List Dim | o.Perm Dim.all ∧ p.baked <+: o})
        (patternsFor u 0 count) orders ↔
      orders.length = count ∧ ∀ level (hl : level < orders.length),
        orders[level].Perm Dim.all ∧ startAt u level <+: orders[level] := by
  simp only [patternsFor, List.forall₂_iff_get, List.length_map, List.length_range',
    List.get_eq_getElem, List.getElem_map, List.getElem_range', Set.mem_ofPred_eq, Nat.zero_add,
    Nat.one_mul]
  constructor
  · rintro ⟨hlen, hall⟩
    exact ⟨hlen.symm, fun level hl => hall level (hlen.symm ▸ hl) hl⟩
  · rintro ⟨hlen, hall⟩
    exact ⟨hlen.symm, fun level _ hl => hall level hl⟩

/-- The sizes of the levels are the numbers of arrangements of what is free. -/
theorem volume_patternsFor (hu : reading.Consistent u) {count : ℕ}
    (hall : ∀ level < count, (u.levels.find? level).isSome) :
    OrderSpace.volume (patternsFor u 0 count) =
      ∏ level ∈ Finset.range count, (Dim.count - (startAt u level).length)! := by
  have hprod (g : ℕ → ℕ) : ∏ level ∈ Finset.range count, g level =
      ((List.range count).map g).prod := rfl
  rw [OrderSpace.volume, Radix.volume_eq_prod, patternsFor, List.map_map, ← List.range_eq_range',
    ← hprod]
  refine Finset.prod_congr rfl fun level hlevel => ?_
  have hperm := perm_start_append_rest hu (hall level (Finset.mem_range.mp hlevel))
  have hlen := OrderPattern.length_free (p := ⟨startAt u level, restAt u level⟩) hperm
  rw [Function.comp_apply, OrderPattern.size, hlen, Radix.factorial_eq]

theorem size_of_covers {ps : List OrderPattern} (hcount : ps.length = s.levelCount.toInt.toNat)
    (h : Covers s 0 ps) : s.size = .ok (OrderSpace.volume ps) := by
  rw [size, ← hcount, h.sizesFrom]
  rfl

theorem decode_of_covers {ps : List OrderPattern} (hcount : ps.length = s.levelCount.toInt.toNat)
    (h : Covers s 0 ps) (hall : ∀ p ∈ ps, (p.baked ++ p.free).Perm Dim.all) {i : ℕ}
    (hi : i < OrderSpace.volume ps) : s.decode (.int i) = .ok (OrderSpace.ordersAt ps i) := by
  rw [decode, size_of_covers hcount h, ok_bind, Value.placeIn_natCast hi, ok_bind, ← hcount,
    h.ordersFrom hall]

/-- A run in which a level is set up again, calls name a dimension twice or a level out of range,
and the dimensions of the user are pruned in part. -/
def sampleCalls : List (Call Value OrderSetting) :=
  [.init (.int 2),
    .level (.int 1) (.lead (.list [.text "K", .text "c"]) (.list [.dim .c, .int 6])),
    .level (.int 0) .canonical,
    .level (.int 0) (.lead (.list [.text "P", .int 2]) (.list [])),
    .level (.int 2) .canonical,
    .level (.int 0) (.lead (.text "KC") (.list []))]

end LoopTiling.OrderState
