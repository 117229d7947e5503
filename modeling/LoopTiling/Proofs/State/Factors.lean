import LoopTiling.Proofs.Radix.Encoding
import LoopTiling.Proofs.Space.Factors
import LoopTiling.Proofs.Space.Families
import LoopTiling.State.Factors

/-!
# What setting up makes of a space of factors

A space of factors that is set up has the tables that its arguments ask for and a counter over
their sizes. Its indices number the families that have for each dimension as many positive factors
as levels, with the bound as their product and the pinned ones among them. The factor of a
dimension at a level is the one that the whole member has there, and a level out of range is a
fault.
-/
namespace LoopTiling

/-- Whether the keys of the pins of each dimension are different from each other. -/
def Value.PinsDiffer (pins : Value) : Prop := ∀ es, pins = .map es → ∀ e ∈ es, e.2.KeysDiffer

theorem keysDiffer_of_givesPins {pins v : Value} {d : Dim} (hpins : pins.PinsDiffer)
    (h : GivesPins pins d v) : v.KeysDiffer := by
  have hnull : Value.null.KeysDiffer := fun _ he => Value.noConfusion he
  cases pins with
  | map es =>
    rcases h with ⟨before, key, after, rfl, -⟩ | ⟨rfl, -⟩
    · exact hpins _ rfl (key, v) (List.mem_append_right before List.mem_cons_self)
    · exact hnull
  | _ =>
    obtain rfl : v = .null := h
    exact hnull

theorem CounterState.ofSizes_eq_ok [Text.DigitLimit] {sizes : List ℕ} {c : CounterState} :
    ofSizes sizes = .ok c ↔ (∀ n ∈ sizes, 0 < n) ∧ c = ⟨sizes, Radix.volume sizes⟩ := by
  simp only [ofSizes, bind_eq_ok, Counter.ofSizes_eq_ok, pure_eq_ok]
  constructor
  · rintro ⟨_, ⟨hpos, rfl⟩, rfl⟩
    exact ⟨hpos, rfl⟩
  · rintro ⟨hpos, rfl⟩
    exact ⟨_, ⟨hpos, rfl⟩, rfl⟩

namespace FactorState

def ofTables (tables : PerDim FactorTable) : FactorState :=
  ⟨some tables, ⟨FactorSpace.sizes tables, Radix.volume (FactorSpace.sizes tables)⟩⟩

theorem size_ofTables (tables : PerDim FactorTable) :
    (ofTables tables).size = Radix.volume (FactorSpace.sizes tables) := rfl

section Reading

variable {tables : PerDim FactorTable} {i : ℕ}

theorem sizes_pos (hpos : ∀ d, 0 < (tables.get d).size) :
    ∀ n ∈ FactorSpace.sizes tables, 0 < n := by
  intro n hn
  rw [FactorSpace.sizes_eq] at hn
  obtain ⟨d, -, rfl⟩ := List.mem_map.mp hn
  exact hpos d

theorem digit_lt (hpos : ∀ d, 0 < (tables.get d).size) (i : ℕ) (d : Dim) :
    (Radix.digits (FactorSpace.sizes tables) i).getD d.index 0 < (tables.get d).size := by
  refine Radix.getD_digits_lt (sizes_pos hpos) i ?_
  rw [FactorSpace.sizes_eq, List.getElem?_map, Dim.getElem?_all_index]
  rfl

theorem placesFor_ofTables (hi : i < (ofTables tables).size) :
    (ofTables tables).placesFor (.int i) = .ok (tables,
      .ofFn fun d => .int ((Radix.digits (FactorSpace.sizes tables) i).getD d.index 0)) := by
  rw [size_ofTables] at hi
  unfold placesFor
  simp only [ofTables, CounterState.decode, Value.placeIn_natCast hi]
  rfl

theorem rowAt_place (hpos : ∀ d, 0 < (tables.get d).size) (i : ℕ) (d : Dim) :
    (tables.get d).rowAt (.int ((Radix.digits (FactorSpace.sizes tables) i).getD d.index 0)) =
      .ok ((FactorSpace.rowsAt tables i).get d) := by
  rw [FactorTable.rowAt_natCast (digit_lt hpos i d), FactorSpace.rowsAt, PerDim.get_ofFn]

theorem decode_ofTables (hpos : ∀ d, 0 < (tables.get d).size) (hi : i < (ofTables tables).size) :
    (ofTables tables).decode (.int i) = .ok (FactorSpace.rowsAt tables i) := by
  rw [decode, placesFor_ofTables hi, ok_bind, PerDim.ofFnM_eq_ok]
  intro d
  rw [PerDim.get_ofFn]
  exact rowAt_place hpos i d

theorem factorAt_ofTables (hpos : ∀ d, 0 < (tables.get d).size) (hi : i < (ofTables tables).size)
    {dim : Value} {d : Dim} (hd : dim.asDim = .ok d) (level : Value) :
    (ofTables tables).factorAt (.int i) dim level =
      (tables.get d).factorIn ((FactorSpace.rowsAt tables i).get d) level := by
  rw [factorAt, hd, ok_bind, placesFor_ofTables hi, ok_bind]
  simp only [FactorTable.factorAt, PerDim.get_ofFn, rowAt_place hpos i d, ok_bind]

end Reading

section Calls

variable [Text.DigitLimit]

def readTables (args : Arguments) : Except Fault (PerDim FactorTable) := do
  let bounds ← perDim "bounds" args.bounds
  let levelCounts ← perDim "cofactor counts" args.levelCounts
  let pins ← FactorSpace.readPins args.pins
  FactorSpace.tabulate bounds levelCounts pins

/-- Setting up reads all tables before it writes, and then makes a counter over their sizes. -/
theorem call_init (args : Arguments) (s : FactorState) : call (.init args) s =
    match readTables args with
    | .error fault => .error fault s
    | .ok tables =>
      match CounterState.ofSizes (FactorSpace.sizes tables) with
      | .error fault => .error fault { s with tables := some tables }
      | .ok counter => .ok (FactorSpace.mk (some tables)).reported ⟨some tables, counter⟩ := by
  change init args.bounds args.levelCounts args.pins s = _
  unfold init readTables
  cases perDim "bounds" args.bounds with
  | error fault => rfl
  | ok bounds =>
    cases perDim "cofactor counts" args.levelCounts with
    | error fault => rfl
    | ok levelCounts =>
      cases FactorSpace.readPins args.pins with
      | error fault => rfl
      | ok pins =>
        rw [ok_bind, ok_bind, ok_bind]
        change (Update.check (FactorSpace.tabulate bounds levelCounts pins) >>= _) s = _
        cases FactorSpace.tabulate bounds levelCounts pins with
        | error fault => rfl
        | ok tables =>
          dsimp only
          change (Update.check (CounterState.ofSizes (FactorSpace.sizes tables)) >>= _)
            { s with tables := some tables } = _
          cases CounterState.ofSizes (FactorSpace.sizes tables) <;> rfl

/-- Tables that are read are made of values that the arguments give for the dimensions. -/
theorem ofValues_of_readTables {args : Arguments} {tables : PerDim FactorTable}
    (h : readTables args = .ok tables) :
    ∃ bounds levelCounts pins : PerDim Value, ∀ d, Gives args.bounds d (bounds.get d) ∧
      Gives args.levelCounts d (levelCounts.get d) ∧ GivesPins args.pins d (pins.get d) ∧
      FactorTable.ofValues (bounds.get d) (levelCounts.get d) (pins.get d) =
        .ok (tables.get d) := by
  simp only [readTables, bind_eq_ok] at h
  obtain ⟨bounds, hbounds, levelCounts, hcounts, pins, hread, htables⟩ := h
  refine ⟨bounds, levelCounts, pins, fun d => ?_⟩
  have htable := FactorSpace.nameDim_eq_ok.mp (PerDim.ofFnM_eq_ok.mp htables d)
  exact ⟨gives_of_perDim hbounds d, gives_of_perDim hcounts d, givesPins_of_readPins hread d, htable⟩

theorem sound_of_readTables {args : Arguments} {tables : PerDim FactorTable}
    (hpins : args.pins.PinsDiffer) (h : readTables args = .ok tables) (d : Dim) :
    (tables.get d).Sound := by
  obtain ⟨_, _, _, hread⟩ := ofValues_of_readTables h
  obtain ⟨-, -, hpinned, htable⟩ := hread d
  exact (FactorTable.sound_of_ofValues (keysDiffer_of_givesPins hpins hpinned) htable).1

/-- The tables that are read are those of the values that the arguments give for the dimensions. -/
theorem isTable_of_readTables {args : Arguments} {tables : PerDim FactorTable}
    (hpins : args.pins.PinsDiffer) (h : readTables args = .ok tables) :
    ∃ bounds levelCounts pins : PerDim Value, ∀ d, Gives args.bounds d (bounds.get d) ∧
      Gives args.levelCounts d (levelCounts.get d) ∧ GivesPins args.pins d (pins.get d) ∧
      FactorTable.IsTable (bounds.get d) (levelCounts.get d) (pins.get d) (tables.get d) := by
  obtain ⟨bounds, levelCounts, pins, hread⟩ := ofValues_of_readTables h
  refine ⟨bounds, levelCounts, pins, fun d => ?_⟩
  obtain ⟨hbounds, hcounts, hpinned, htable⟩ := hread d
  exact ⟨hbounds, hcounts, hpinned,
    FactorTable.isTable_of_ofValues (keysDiffer_of_givesPins hpins hpinned) htable⟩

theorem eq_ofTables_of_call_init (args : Arguments) {s s' : FactorState} {journal : Journal}
    (h : call (.init args) s = .ok journal s') :
    ∃ tables, readTables args = .ok tables ∧ s' = ofTables tables := by
  rw [call_init] at h
  split at h
  · cases h
  · next tables htables =>
    split at h
    · cases h
    · next counter hcounter =>
      obtain ⟨-, rfl⟩ := CounterState.ofSizes_eq_ok.mp hcounter
      obtain ⟨-, rfl⟩ := EStateM.Result.ok.inj h
      exact ⟨tables, htables, rfl⟩

end Calls

def sampleBounds : Value := .list ([2, 1, 12, 4, 3, 6, 1].map .int)

/-- A number of levels for each dimension, which the keys name in several ways. -/
def sampleCounts : Value :=
  .map [(.text "R", .int 2), (.text " s", .int 1), (.int 2, .dim .q), (.dim .q, .int 2),
    (.text "C", .int 1), (.int 5, .int 2), (.text "N", .int 4)]

def samplePins : Value :=
  .map [(.text "k", .map [(.dim .s, .int 6), (.int 0, .int 1)]),
    (.dim .p, .map [(.int 0, .int 3)]), (.text "N", .null)]

theorem pinsDiffer_samplePins : samplePins.PinsDiffer := by
  rintro _ ⟨⟩
  simp only [List.forall_mem_cons, List.not_mem_nil, false_implies, implies_true, and_true]
  refine ⟨?_, ?_, ?_⟩
  all_goals
    rintro _ ⟨⟩
    try decide

end FactorState

end LoopTiling
