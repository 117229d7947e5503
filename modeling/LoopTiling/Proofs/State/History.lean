import LoopTiling.Proofs.Printing
import LoopTiling.Proofs.State.Factors
import LoopTiling.Proofs.State.Replay
import LoopTiling.Proofs.State.Spaces

/-!
# The history of an object does not matter

Counters, spaces of factors, spaces of orders and spaces of splits hold what their calls ask for,
and what is asked for decides every answer. So of all calls that have returned only the last ones
matter, and those that have failed do not matter at all.
-/
namespace LoopTiling

section Reports

variable [Text.DigitLimit]

theorem Numeral.shown_plain {n : ℤ} (h : Text.isShort n) :
    shown (Numeral.plain n).text? = .ok (toString n) := shown_eq_ok.mpr (if_pos h)

theorem Numeral.exists_shown (h : Text.isShort Dim.count) {n : Numeral} (hpos : 0 ≤ n.toInt)
    (hle : n.toInt ≤ Dim.count) : ∃ s, shown n.text? = .ok s := by
  cases n with
  | dim d => exact ⟨d.name, rfl⟩
  | plain n =>
    obtain ⟨k, rfl⟩ := Int.eq_ofNat_of_zero_le hpos
    exact ⟨_, shown_plain (Text.isShort_mono (Int.ofNat_le.mp hle) h)⟩

theorem OrderPattern.reported_eq_ok {n : ℤ} (h : Text.isShort n) (p : OrderPattern) :
    ∃ journal, p.reported (.plain n) = .ok journal := by
  rw [reported, Numeral.shown_plain h]
  exact ⟨_, rfl⟩

theorem SplitRule.reported_eq_ok (hcount : Text.isShort Dim.count) {n : ℤ} (h : Text.isShort n)
    {rule : SplitRule} (hrange : rule.InRange) :
    ∃ journal, rule.reported (.plain n) = .ok journal := by
  rw [reported, Numeral.shown_plain h, ok_bind]
  cases rule with
  | fixed split =>
    obtain ⟨s, hs⟩ := Numeral.exists_shown hcount hrange.1 hrange.2
    dsimp only
    rw [hs]
    exact ⟨_, rfl⟩
  | free unit =>
    obtain ⟨s, hs⟩ := Numeral.exists_shown hcount hrange.1 hrange.2
    dsimp only
    rw [hs]
    exact ⟨_, rfl⟩

end Reports

namespace CounterState

variable [Text.DigitLimit]

def readRadices (radices : Value) : Except Fault (List ℕ) := do
  Counter.checkRadices 0 (← radices.items)

def reading : Reading Value Empty (List ℕ) Empty where
  start := []
  base := readRadices
  entry _ _ := nofun
  numeral_of_entry {_ _ arg} := arg.elim

def kind : Kind CounterState Value Empty := ⟨{}, call, .counter⟩

/-- Whether a counter has the radices that have been asked for, and their product. -/
def Represents (c : CounterState) (u : Setup (List ℕ) Empty) : Prop :=
  c = ⟨u.base, Radix.volume u.base⟩

theorem call_init (radices : Value) (c : CounterState) : call (.init radices) c =
    match readRadices radices with
    | .error fault => .error fault c
    | .ok rs => .ok [] ⟨rs, Radix.volume rs⟩ := by
  change (Update.check (readRadices radices) >>= _) c = _
  cases readRadices radices <;> rfl

theorem call_of_error {radices : Value} {c : CounterState} {fault : Fault}
    (h : readRadices radices = .error fault) : kind.call (.init radices) c = .error fault c := by
  change call (.init radices) c = _
  rw [call_init, h]

theorem call_of_ok {radices : Value} {c : CounterState} {rs : List ℕ}
    (h : readRadices radices = .ok rs) :
    kind.call (.init radices) c = .ok [] ⟨rs, Radix.volume rs⟩ := by
  change call (.init radices) c = _
  rw [call_init, h]

theorem holds : kind.Holds reading Represents where
  fresh := rfl
  init_refused := call_of_error
  init_accepted h := by
    rw [Update.after, call_of_ok h]
    rfl
  level_refused {_ _ _ arg} := arg.elim
  level_accepted {_ _ _ arg} := arg.elim

theorem returns : kind.Returns reading Represents where
  init h := ⟨_, _, call_of_ok h⟩
  level {_ _ _ arg} := arg.elim

theorem historyFree : kind.HistoryFree := by
  refine holds.historyFree returns fun {c c' u} _ hc hc' q => ?_
  rw [hc, hc']

end CounterState

namespace FactorState

variable [Text.DigitLimit]

/-- Arguments in which no dimension has a level pinned twice. -/
abbrev Pinned := {args : Arguments // args.pins.PinsDiffer}

def reading : Reading Pinned Empty (Option (PerDim FactorTable)) Empty where
  start := none
  base args := some <$> readTables args.1
  entry _ _ := nofun
  numeral_of_entry {_ _ arg} := arg.elim

def kind : Kind FactorState Pinned Empty where
  fresh := {}
  call
    | .init args => call (.init args.1)
  space := .factors

/-- Whether a space has the tables that have been asked for, and a counter over their sizes. -/
def Represents (s : FactorState) (u : Setup (Option (PerDim FactorTable)) Empty) : Prop :=
  s = u.base.elim {} ofTables

theorem call_of_error {args : Pinned} {s : FactorState} {fault : Fault}
    (h : readTables args.1 = .error fault) : kind.call (.init args) s = .error fault s := by
  change call (.init args.1) s = _
  rw [call_init, h]

/-- Tables that are read have rows, so that the counter over their sizes is made. -/
theorem call_of_ok {args : Pinned} {s : FactorState} {tables : PerDim FactorTable}
    (h : readTables args.1 = .ok tables) :
    kind.call (.init args) s = .ok (FactorSpace.mk (some tables)).reported (ofTables tables) := by
  obtain ⟨bs, ls, ps, hread⟩ := isTable_of_readTables args.2 h
  have hpos := sizes_pos fun d => (hread d).2.2.2.size_pos
  change call (.init args.1) s = _
  rw [call_init, h]
  dsimp only
  rw [CounterState.ofSizes_eq_ok.mpr ⟨hpos, rfl⟩]
  rfl

theorem holds : kind.Holds reading Represents where
  fresh := rfl
  init_refused h := call_of_error (map_eq_error.mp h)
  init_accepted h := by
    obtain ⟨tables, htables, rfl⟩ := map_eq_ok.mp h
    rw [Update.after, call_of_ok htables]
    rfl
  level_refused {_ _ _ arg} := arg.elim
  level_accepted {_ _ _ arg} := arg.elim

theorem returns : kind.Returns reading Represents where
  init h := by
    obtain ⟨tables, htables, -⟩ := map_eq_ok.mp h
    exact ⟨_, _, call_of_ok htables⟩
  level {_ _ _ arg} := arg.elim

theorem historyFree : kind.HistoryFree := by
  refine holds.historyFree returns fun {s t u} _ hs ht q => ?_
  rw [hs, ht]

end FactorState

namespace OrderState

variable {s t : OrderState} {u : Setup Numeral (List Dim × List Dim)}

/-- Two spaces that hold what has been asked for hold the same, each level in a place of its own. -/
theorem Represents.perm (hs : Represents s u) (ht : Represents t u) :
    s.patterns.Perm t.patterns ∧ s.sizes.Perm t.sizes := by
  obtain ⟨es, hes, hpatterns, hsizes⟩ := hs.entries
  obtain ⟨fs, hfs, hpatterns', hsizes'⟩ := ht.entries
  have hperm := hes.trans hfs.symm
  rw [hpatterns, hsizes, hpatterns', hsizes']
  exact ⟨hperm.map _, hperm.map _⟩

theorem Represents.apart (hs : Represents s u) (hu : u.levels.Ascending) :
    Apart s.patterns ∧ Apart s.sizes := by
  obtain ⟨es, hes, hpatterns, hsizes⟩ := hs.entries
  have hapart : Apart es := hu.apart.perm hes.symm
  rw [hpatterns, hsizes]
  exact ⟨List.pairwise_map.mpr hapart, List.pairwise_map.mpr hapart⟩

theorem Represents.levelSize_eq (hs : Represents s u) (ht : Represents t u)
    (hu : u.levels.Ascending) (level : Value) : s.levelSize level = t.levelSize level := by
  obtain ⟨hpatterns, hsizes⟩ := hs.perm ht
  obtain ⟨hapart, hapart'⟩ := hs.apart hu
  rw [levelSize, levelSize, Entries.atValue?_eq_of_perm hpatterns hapart,
    Entries.atValue?_eq_of_perm hsizes hapart']

theorem Represents.record_eq (hs : Represents s u) (ht : Represents t u)
    (hu : u.levels.Ascending) : s.record = t.record := by
  rw [record, record, hs.ascending_patterns hu, ht.ascending_patterns hu]

variable [Text.DigitLimit]

/-- What has been asked for decides all answers. -/
theorem Represents.answer_eq (hs : Represents s u) (ht : Represents t u)
    (hu : reading.Consistent u) (q : Query) :
    (Space.orders s).answer q = (Space.orders t).answer q := by
  cases q with
  | size => exact congrArg (Space.number <$> ·) ((hs.size_eq hu).trans (ht.size_eq hu).symm)
  | decode index =>
    exact congrArg (fun m => Member.toValue <$> (Member.orders <$> m))
      ((hs.decode_eq hu index).trans (ht.decode_eq hu index).symm)
  | levelSize level => exact congrArg (Space.number <$> ·) (hs.levelSize_eq ht hu.ascending level)
  | record => exact congrArg Except.ok (hs.record_eq ht hu.ascending)
  | _ => rfl

theorem returns : kind.Returns reading Represents where
  init h := ⟨_, _, init_of_ok h⟩
  level {s u n setting e} hs hshort hread := by
    obtain ⟨l, pruned, lead⟩ := e
    rw [← hs.levelCount] at hread
    obtain ⟨hlevel, -⟩ := readLevel_eq_ok.mp hread
    obtain rfl : Numeral.plain n = l := Option.some.inj (checkLevel_eq_ok.mp hlevel).1
    obtain ⟨journal, hjournal⟩ := OrderPattern.reported_eq_ok hshort (leadPattern (pruned, lead))
    exact ⟨journal, _, (setLevel_of_ok hread).trans (by rw [hjournal]; rfl)⟩

theorem historyFree : kind.HistoryFree :=
  holds.historyFree returns fun hu hs ht q => hs.answer_eq ht hu q

end OrderState

namespace SplitState

variable {s t : SplitState} {u : Setup Numeral SplitRule}

theorem Represents.record_eq (hs : Represents s u) (ht : Represents t u)
    (hu : u.levels.Ascending) : s.record = t.record := by
  simp only [record, hs.ascending_isFixed hu, ht.ascending_isFixed hu, hs.userSplits, ht.userSplits,
    hs.unitFactors, ht.unitFactors]

variable [Text.DigitLimit]

/-- What has been asked for decides all answers. -/
theorem Represents.answer_eq (hs : Represents s u) (ht : Represents t u) (hu : u.levels.Ascending)
    (q : Query) : (Space.splits s).answer q = (Space.splits t).answer q := by
  cases q with
  | size => exact congrArg (fun n => Except.ok (Space.number n)) (hs.size.trans ht.size.symm)
  | decode index =>
    exact congrArg (fun m => Member.toValue <$> (Member.splits <$> m))
      ((hs.decode_eq hu index).trans (ht.decode_eq hu index).symm)
  | levels =>
    exact congrArg (fun ls : List Numeral => Except.ok (Value.list (ls.map Numeral.toValue)))
      ((hs.levels hu).trans (ht.levels hu).symm)
  | record => exact congrArg Except.ok (hs.record_eq ht hu)
  | _ => rfl

theorem returns (hcount : Text.isShort Dim.count) : kind.Returns reading Represents where
  init h := ⟨_, _, init_of_ok h⟩
  level {s u n setting e} hs hshort hread := by
    obtain ⟨l, rule⟩ := e
    rw [← hs.levelCount] at hread
    obtain ⟨hlevel, hrule⟩ := readLevel_eq_ok.mp hread
    obtain rfl : Numeral.plain n = l := Option.some.inj (checkLevel_eq_ok.mp hlevel).1
    obtain ⟨journal, hjournal⟩ :=
      SplitRule.reported_eq_ok hcount hshort (inRange_of_readRule hrule)
    exact ⟨journal, _, (call_of_ok hread).trans (by rw [hjournal]; rfl)⟩

theorem historyFree (hcount : Text.isShort Dim.count) : kind.HistoryFree :=
  holds.historyFree (returns hcount) fun hu hs ht q => hs.answer_eq ht hu.ascending q

end SplitState

/-- The run in which a level is free, fixed and free again, another is set up before it, and calls
for a level out of range and with too many dimensions fail. -/
def sampleSplitCalls : List (Call Value SplitSetting) :=
  [.level (.int 0) (.free (.int 0)), .init (.int 3), .level (.int 2) (.free (.int 1)),
    .level (.int 0) (.fixed (.int 4)), .level (.int 2) (.fixed (.dim .q)),
    .level (.int 3) (.free (.int 0)), .level (.int 2) (.free (.int 8)),
    .level (.int 2) (.free (.int 5))]

theorem isPlain_sampleSplitCalls : ∀ c ∈ sampleSplitCalls, c.IsPlain := by
  simp only [sampleSplitCalls, List.forall_mem_cons, List.not_mem_nil, false_implies, implies_true,
    and_true]
  refine ⟨⟨0, rfl, ?_⟩, trivial, ⟨2, rfl, ?_⟩, ⟨0, rfl, ?_⟩, ⟨2, rfl, ?_⟩, ⟨3, rfl, ?_⟩,
    ⟨2, rfl, ?_⟩, ⟨2, rfl, ?_⟩⟩
  all_goals decide +kernel

end LoopTiling
