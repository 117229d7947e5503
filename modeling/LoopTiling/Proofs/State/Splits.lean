import LoopTiling.Proofs.Space.Splits
import LoopTiling.Proofs.State.Setup

/-!
# What calls make of a space of splits

After every run of calls the four parts of a space of splits are in step: they have the same
levels, and each level has either the user's split or a number of unit factors, as the last
accepted call for it asks. The size is a product in the order in which the levels came, decoding
goes through the levels in ascending order; still the indices number the tables with a split for
each level that the level allows.
-/
namespace LoopTiling

namespace SplitRule

def isFixed : SplitRule → Bool
  | fixed _ => true
  | free _ => false

def split? : SplitRule → Option Numeral
  | fixed split => some split
  | free _ => none

def unit? : SplitRule → Option Numeral
  | fixed _ => none
  | free unit => some unit

/-- Whether what a rule holds is a number of dimensions. -/
def InRange : SplitRule → Prop
  | fixed split => 0 ≤ split.toInt ∧ split.toInt ≤ Dim.count
  | free unit => 0 ≤ unit.toInt ∧ unit.toInt ≤ Dim.count

end SplitRule

namespace SplitState

def readRule (level : Value) : SplitSetting → Except Fault SplitRule
  | .free unit => .free <$> SplitSpace.checkDimCount (.unitRange level unit) unit
  | .fixed split => .fixed <$> SplitSpace.checkDimCount (.splitRange level split) split

def readLevel (levelCount : Numeral) (level : Value) (setting : SplitSetting) :
    Except Fault (Numeral × SplitRule) := do
  let l ← checkLevel levelCount level
  return (l, ← readRule level setting)

theorem readLevel_eq_ok {count l : Numeral} {level : Value} {setting : SplitSetting}
    {rule : SplitRule} : readLevel count level setting = .ok (l, rule) ↔
      checkLevel count level = .ok l ∧ readRule level setting = .ok rule := by
  simp only [readLevel, bind_eq_ok, pure_eq_ok, Prod.mk.injEq]
  constructor
  · rintro ⟨l, hl, rule, hrule, rfl, rfl⟩
    exact ⟨hl, hrule⟩
  · rintro ⟨hl, hrule⟩
    exact ⟨l, hl, rule, hrule, rfl, rfl⟩

theorem inRange_of_checkDimCount {fault : Fault} {v : Value} {n : Numeral}
    (h : SplitSpace.checkDimCount fault v = .ok n) : 0 ≤ n.toInt ∧ n.toInt ≤ Dim.count := by
  rw [SplitSpace.checkDimCount] at h
  split at h
  · split at h
    · cases h
    · next hnot =>
      rw [← Except.ok.inj h]
      omega
  · cases h

theorem inRange_of_readRule {level : Value} {setting : SplitSetting} {rule : SplitRule}
    (h : readRule level setting = .ok rule) : rule.InRange := by
  cases setting with
  | free unit =>
    obtain ⟨u, hu, rfl⟩ := map_eq_ok.mp h
    exact inRange_of_checkDimCount hu
  | fixed split =>
    obtain ⟨n, hn, rfl⟩ := map_eq_ok.mp h
    exact inRange_of_checkDimCount hn

/-- How calls are read: each level has a rule. -/
def reading : Reading Value SplitSetting Numeral SplitRule where
  start := .plain 0
  base := checkLevelCount
  entry := readLevel
  numeral_of_entry h := by
    obtain ⟨hl, -⟩ := readLevel_eq_ok.mp h
    exact (checkLevel_eq_ok.mp hl).1

def kind [Text.DigitLimit] : Kind SplitState Value SplitSetting := ⟨{}, call, .splits⟩

/-- Whether a space holds what has been asked for. The levels stand in the order in which they came.
-/
structure Represents (s : SplitState) (u : Setup Numeral SplitRule) : Prop where
  levelCount : s.levelCount = u.base
  entries : ∃ t : Entries SplitRule, t.Perm u.levels ∧
    s.isFixed = t.map (fun e => (e.1, e.2.isFixed)) ∧ s.sizes = t.map fun e => (e.1, e.2.size)
  userSplits : ∀ level, s.userSplits.at? level = (u.levels.find? level).bind SplitRule.split?
  unitFactors : ∀ level, s.unitFactors.at? level = (u.levels.find? level).bind SplitRule.unit?

def withRule (s : SplitState) (l : Numeral) (rule : SplitRule) : SplitState where
  levelCount := s.levelCount
  isFixed := s.isFixed.put l rule.isFixed
  userSplits := rule.split?.elim (s.userSplits.drop l) fun split => s.userSplits.put l split
  unitFactors := rule.unit?.elim (s.unitFactors.drop l) fun unit => s.unitFactors.put l unit
  sizes := s.sizes.put l rule.size

variable {s : SplitState} {u : Setup Numeral SplitRule}

theorem init_of_error {levelCount : Value} {fault : Fault}
    (h : checkLevelCount levelCount = .error fault) : init levelCount s = .error fault s := by
  rw [init, h]
  rfl

theorem init_of_ok {levelCount : Value} {count : Numeral}
    (h : checkLevelCount levelCount = .ok count) :
    init levelCount s = .ok [] ⟨count, [], [], [], []⟩ := by
  rw [init, h]
  rfl

section Calls

variable [Text.DigitLimit] {level : Value} {setting : SplitSetting}

/-- A call for a level is refused before it writes, or writes all of its rule and then reports it.
-/
theorem call_level : call (.level level setting) s =
    match readLevel s.levelCount level setting with
    | .error fault => .error fault s
    | .ok (l, rule) => Update.check (rule.reported l) (s.withRule l rule) := by
  cases setting with
  | free unit =>
    change (Update.check (checkLevel s.levelCount level) >>= _) s = _
    rw [readLevel]
    cases checkLevel s.levelCount level with
    | error fault => rfl
    | ok l =>
      change (Update.check (SplitSpace.checkDimCount (.unitRange level unit) unit) >>= _) s = _
      rw [readRule]
      cases SplitSpace.checkDimCount (.unitRange level unit) unit <;> rfl
  | fixed split =>
    change (Update.check (checkLevel s.levelCount level) >>= _) s = _
    rw [readLevel]
    cases checkLevel s.levelCount level with
    | error fault => rfl
    | ok l =>
      change (Update.check (SplitSpace.checkDimCount (.splitRange level split) split) >>= _) s = _
      rw [readRule]
      cases SplitSpace.checkDimCount (.splitRange level split) split <;> rfl

theorem call_of_error {fault : Fault} (h : readLevel s.levelCount level setting = .error fault) :
    call (.level level setting) s = .error fault s := by
  rw [call_level, h]

theorem call_of_ok {l : Numeral} {rule : SplitRule}
    (h : readLevel s.levelCount level setting = .ok (l, rule)) :
    call (.level level setting) s = Update.check (rule.reported l) (s.withRule l rule) := by
  rw [call_level, h]

end Calls

theorem Represents.withRule (h : Represents s u) (hu : u.levels.Ascending) (l : Numeral)
    (rule : SplitRule) :
    Represents (s.withRule l rule) { u with levels := u.levels.set l rule } := by
  obtain ⟨t, hperm, hfixed, hsizes⟩ := h.entries
  have hput := Entries.put_perm_set_of_perm l rule hperm hu
  refine ⟨h.levelCount, ⟨t.put l rule, hput, ?_, ?_⟩, ?_, ?_⟩
  · rw [Entries.map_put SplitRule.isFixed, ← hfixed]
    rfl
  · rw [Entries.map_put SplitRule.size, ← hsizes]
    rfl
  · intro level
    rw [LevelTable.find?_set, SplitState.withRule]
    cases rule with
    | fixed split =>
      simp only [SplitRule.split?, Option.elim, Entries.at?_put, h.userSplits]
      split <;> rfl
    | free unit =>
      simp only [SplitRule.split?, Option.elim, Entries.at?_drop, h.userSplits]
      split <;> rfl
  · intro level
    rw [LevelTable.find?_set, SplitState.withRule]
    cases rule with
    | fixed split =>
      simp only [SplitRule.unit?, Option.elim, Entries.at?_drop, h.unitFactors]
      split <;> rfl
    | free unit =>
      simp only [SplitRule.unit?, Option.elim, Entries.at?_put, h.unitFactors]
      split <;> rfl

theorem holds [Text.DigitLimit] : kind.Holds reading Represents where
  fresh := ⟨rfl, ⟨[], .refl _, rfl, rfl⟩, fun _ => rfl, fun _ => rfl⟩
  init_refused := init_of_error
  init_accepted := by
    intro s levelCount count hcount
    have hcall : kind.call (.init levelCount) s = .ok [] ⟨count, [], [], [], []⟩ :=
      init_of_ok hcount
    rw [Update.after, hcall]
    exact ⟨rfl, ⟨[], .refl _, rfl, rfl⟩, fun _ => rfl, fun _ => rfl⟩
  level_refused := by
    intro s u level setting fault hs herr
    rw [← hs.levelCount] at herr
    exact call_of_error herr
  level_accepted := by
    intro s u level setting e hasc hs hread
    rw [← hs.levelCount] at hread
    have hafter : (kind.call (.level level setting)).after s = s.withRule e.1 e.2 :=
      Update.after_of_check (call_of_ok hread)
    rw [hafter]
    exact hs.withRule hasc e.1 e.2

/-- Whether the four parts of a space are in step. -/
structure Coherent (s : SplitState) : Prop where
  /-- The levels whose split is the user's or not are those that have a size. -/
  keys : s.isFixed.map Prod.fst = s.sizes.map Prod.fst
  fixed {level : ℤ} : s.isFixed.at? level = some true → s.unitFactors.at? level = none ∧
    ∃ split, s.userSplits.at? level = some split ∧ 0 ≤ split.toInt ∧ split.toInt ≤ Dim.count
  free {level : ℤ} : s.isFixed.at? level = some false → s.userSplits.at? level = none ∧
    ∃ unit, s.unitFactors.at? level = some unit ∧ 0 ≤ unit.toInt ∧ unit.toInt ≤ Dim.count
  absent {level : ℤ} : s.isFixed.at? level = none →
    s.userSplits.at? level = none ∧ s.unitFactors.at? level = none
  /-- The levels, ascending, are those that are set up. -/
  levels : s.levels.Perm (s.isFixed.map Prod.fst) ∧
    s.levels.Pairwise fun l l' => l.toInt < l'.toInt

/-- Whether a space allows a split at a level: the user's where it is fixed, or a number of
dimensions that is not below the unit factors. -/
def Allows (s : SplitState) (level : ℤ) (split : Numeral) : Prop :=
  match s.isFixed.at? level with
  | some true => s.userSplits.at? level = some split
  | some false => ∃ unit, s.unitFactors.at? level = some unit ∧
      ∃ n : ℤ, split = .plain n ∧ unit.toInt ≤ n ∧ n ≤ Dim.count
  | none => False

theorem Represents.isFixed (h : Represents s u) (hu : u.levels.Ascending) (level : ℤ) :
    s.isFixed.at? level = (u.levels.find? level).map SplitRule.isFixed ∧
      s.sizes.at? level = (u.levels.find? level).map SplitRule.size := by
  obtain ⟨t, hperm, hfixed, hsizes⟩ := h.entries
  have hfind : LevelTable.find? level t = u.levels.find? level :=
    Entries.at?_eq_of_perm hperm (hu.apart.perm hperm.symm) level
  rw [hfixed, hsizes, ← hfind]
  exact ⟨LevelTable.find?_map SplitRule.isFixed level t,
    LevelTable.find?_map SplitRule.size level t⟩

theorem inRange_of_find? (hu : reading.Consistent u) {level : ℤ} {rule : SplitRule}
    (h : u.levels.find? level = some rule) : rule.InRange := by
  obtain ⟨l, -, hmem⟩ := LevelTable.mem_of_find? h
  obtain ⟨v, setting, l', hread, -⟩ := hu.asked (l, rule) hmem
  exact inRange_of_readRule (readLevel_eq_ok.mp hread).2

theorem Represents.ascending_isFixed (h : Represents s u) (hu : u.levels.Ascending) :
    s.isFixed.ascending = u.levels.map fun e => (e.1, e.2.isFixed) := by
  obtain ⟨t, hperm, hfixed, -⟩ := h.entries
  rw [hfixed]
  exact Entries.ascending_eq_of_perm (hperm.map _) (List.pairwise_map.mpr hu)

theorem Represents.levels (h : Represents s u) (hu : u.levels.Ascending) :
    s.levels = u.levels.map Prod.fst := by
  rw [SplitState.levels, h.ascending_isFixed hu, List.map_map]
  rfl

theorem Represents.coherent (h : Represents s u) (hu : reading.Consistent u) : s.Coherent := by
  refine ⟨?_, fun {level} hlevel => ?_, fun {level} hlevel => ?_, fun {level} hlevel => ?_, ?_, ?_⟩
  · obtain ⟨t, -, hfixed, hsizes⟩ := h.entries
    rw [hfixed, hsizes, List.map_map, List.map_map]
    rfl
  · rw [(h.isFixed hu.ascending level).1, Option.map_eq_some_iff] at hlevel
    obtain ⟨rule, hrule, htrue⟩ := hlevel
    have hrange := inRange_of_find? hu hrule
    rw [h.userSplits, h.unitFactors, hrule]
    cases rule with
    | fixed split => exact ⟨rfl, split, rfl, hrange⟩
    | free unit => cases htrue
  · rw [(h.isFixed hu.ascending level).1, Option.map_eq_some_iff] at hlevel
    obtain ⟨rule, hrule, hfalse⟩ := hlevel
    have hrange := inRange_of_find? hu hrule
    rw [h.userSplits, h.unitFactors, hrule]
    cases rule with
    | fixed split => cases hfalse
    | free unit => exact ⟨rfl, unit, rfl, hrange⟩
  · rw [(h.isFixed hu.ascending level).1, Option.map_eq_none_iff] at hlevel
    rw [h.userSplits, h.unitFactors, hlevel]
    exact ⟨rfl, rfl⟩
  · obtain ⟨t, hperm, hfixed, -⟩ := h.entries
    rw [h.levels hu.ascending, hfixed, List.map_map]
    exact (hperm.map Prod.fst).symm
  · rw [h.levels hu.ascending]
    exact List.pairwise_map.mpr hu.ascending

theorem Represents.allows_iff (h : Represents s u) (hu : u.levels.Ascending) {level : ℤ}
    {rule : SplitRule} (hrule : u.levels.find? level = some rule) (split : Numeral) :
    s.Allows level split ↔ rule.Allows split := by
  rw [Allows, (h.isFixed hu level).1, h.userSplits, h.unitFactors, hrule]
  cases rule with
  | fixed n => exact ⟨fun he => (Option.some.inj he).symm, fun he => congrArg some he.symm⟩
  | free unit =>
    constructor
    · rintro ⟨_, ⟨⟩, hsplit⟩
      exact hsplit
    · exact fun hsplit => ⟨unit, rfl, hsplit⟩

theorem Represents.size (h : Represents s u) :
    s.size = Radix.volume (u.levels.map fun e => e.2.size) := by
  obtain ⟨t, hperm, -, hsizes⟩ := h.entries
  rw [SplitState.size, hsizes, List.map_map, Radix.volume_eq_prod, Radix.volume_eq_prod]
  exact (hperm.map fun e => e.2.size).prod_eq

theorem Represents.splitsFrom (h : Represents s u) (hu : u.levels.Ascending)
    {rules : LevelTable SplitRule} (hrules : ∀ e ∈ rules, e ∈ u.levels) (place : ℕ) :
    s.splitsFrom (rules.map fun e => (e.1, e.2.isFixed)) place =
      .ok (SplitSpace.splitsAt rules place) := by
  induction rules generalizing place with
  | nil => rfl
  | cons e rules ih =>
    rw [List.forall_mem_cons] at hrules
    obtain ⟨level, rule⟩ := e
    have hfind : u.levels.find? level.toInt = some rule :=
      LevelTable.find?_of_mem hu.apart hrules.1
    have hsize := (h.isFixed hu level.toInt).2
    have hsplit := h.userSplits level.toInt
    have hunit := h.unitFactors level.toInt
    rw [hfind] at hsize hsplit hunit
    rw [List.map_cons]
    cases rule with
    | fixed split =>
      rw [SplitRule.isFixed, SplitState.splitsFrom, Entries.get_of_at? hsplit, ok_bind,
        ih hrules.2]
      rfl
    | free unit =>
      rw [SplitRule.isFixed, SplitState.splitsFrom, Entries.get_of_at? hsize, ok_bind,
        Entries.get_of_at? hunit, ok_bind, ih hrules.2]
      rfl

theorem Represents.decode (h : Represents s u) (hu : u.levels.Ascending) {i : ℕ}
    (hi : i < s.size) : s.decode (.int i) = .ok (SplitSpace.splitsAt u.levels i) := by
  rw [SplitState.decode, Value.placeIn_natCast hi, ok_bind, h.ascending_isFixed hu,
    h.splitsFrom hu fun _ he => he]

theorem Represents.forall₂_iff (h : Represents s u) (hu : u.levels.Ascending)
    {splits : LevelTable Numeral} :
    List.Forall₂ (fun e s => s ∈ {s : Numeral × Numeral | s.1 = e.1 ∧ e.2.Allows s.2}) u.levels
        splits ↔
      splits.map Prod.fst = s.levels ∧ ∀ e ∈ splits, s.Allows e.1.toInt e.2 := by
  have hallows : ∀ e ∈ u.levels, ∀ f : Numeral × Numeral, f.1 = e.1 →
      (s.Allows f.1.toInt f.2 ↔ e.2.Allows f.2) := by
    rintro e he f hlevel
    rw [hlevel]
    exact h.allows_iff hu (LevelTable.find?_of_mem hu.apart he) f.2
  rw [h.levels hu]
  generalize u.levels = rules at hallows ⊢
  induction rules generalizing splits with
  | nil =>
    rw [List.forall₂_nil_left_iff, List.map_nil, List.map_eq_nil_iff]
    constructor
    · rintro rfl
      exact ⟨rfl, List.forall_mem_nil _⟩
    · exact And.left
  | cons e rules ih =>
    rw [List.forall_mem_cons] at hallows
    cases splits with
    | nil => simp
    | cons f splits =>
      rw [List.forall₂_cons, List.map_cons, List.map_cons, List.cons.injEq, List.forall_mem_cons]
      constructor
      · rintro ⟨⟨hlevel, hsplit⟩, hrest⟩
        obtain ⟨hkeys, hall⟩ := (ih hallows.2).mp hrest
        exact ⟨⟨hlevel, hkeys⟩, (hallows.1 f hlevel).mpr hsplit, hall⟩
      · rintro ⟨⟨hlevel, hkeys⟩, hsplit, hall⟩
        exact ⟨⟨hlevel, (hallows.1 f hlevel).mp hsplit⟩, (ih hallows.2).mpr ⟨hkeys, hall⟩⟩

/-- After every run of calls the parts of a space of splits are in step, and its indices number the
tables that have for exactly the levels that are set up a split that the level allows. -/
theorem bijOn_splits [Text.DigitLimit] (cs : List (Call Value SplitSetting)) :
    (kind.run cs).Coherent ∧
      Set.BijOn (fun i : ℕ => (kind.run cs).decode (.int i)) (Set.Iio (kind.run cs).size)
        {r | ∃ splits : LevelTable Numeral, (splits.map Prod.fst = (kind.run cs).levels ∧
          ∀ e ∈ splits, (kind.run cs).Allows e.1.toInt e.2) ∧ r = .ok splits} := by
  have hu : reading.Consistent (reading.run cs) := Reading.consistent_run cs
  have hs : Represents (kind.run cs) (reading.run cs) := holds.run cs
  refine ⟨hs.coherent hu, ?_⟩
  have hnum := SplitSpace.bijOn_splitsAt (reading.run cs).levels
  have hset : {ss | List.Forall₂
      (fun e s => s ∈ {s : Numeral × Numeral | s.1 = e.1 ∧ e.2.Allows s.2})
      (reading.run cs).levels ss} = {splits | splits.map Prod.fst = (kind.run cs).levels ∧
        ∀ e ∈ splits, (kind.run cs).Allows e.1.toInt e.2} :=
    Set.ext fun _ => hs.forall₂_iff hu.ascending
  rw [hset, ← hs.size] at hnum
  exact Radix.bijOn_ok hnum fun i hi => hs.decode hu.ascending hi

end SplitState

end LoopTiling
