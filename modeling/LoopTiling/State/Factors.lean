import LoopTiling.Space.Reports
import LoopTiling.State.Counter

/-!
# The state of a space of factors

A space of factors remembers a table for each dimension and a counter whose radices are the sizes of
the tables. Before it is set up it has no tables, and its counter has no axes.
-/
namespace LoopTiling

structure FactorState where
  tables : Option (PerDim FactorTable) := none
  counter : CounterState := {}
deriving Inhabited

namespace FactorState

variable [Text.DigitLimit]

def init (bounds levelCounts pins : Value) : Update FactorState Journal := do
  let bounds ← .check (perDim "bounds" bounds)
  let levelCounts ← .check (perDim "cofactor counts" levelCounts)
  let pins ← .check (FactorSpace.readPins pins)
  let tables ← .check (FactorSpace.tabulate bounds levelCounts pins)
  modify fun s => { s with tables := some tables }
  let counter ← .check (CounterState.ofSizes (FactorSpace.sizes tables))
  modify fun s => { s with counter := counter }
  return (FactorSpace.mk (some tables)).reported

def size (s : FactorState) : Nat := s.counter.size

/-- The tables, and for each dimension the place of a row that an index names. -/
def placesFor (s : FactorState) (index : Value) :
    Except Fault (PerDim FactorTable × PerDim Value) :=
  match s.tables with
  | none => .error .factorSpaceEmpty
  | some tables => do
    let digits ← s.counter.decode index
    return (tables, .ofFn fun d => .int (digits.getD d.index 0))

/-- The factor of a dimension at a level in the member that an index names. -/
def factorAt (s : FactorState) (index dim level : Value) : Except Fault Nat := do
  let d ← dim.asDim
  let (tables, places) ← s.placesFor index
  (tables.get d).factorAt (places.get d) level

/-- The factors of every dimension in the member that an index names. -/
def decode (s : FactorState) (index : Value) : Except Fault (PerDim (List Nat)) := do
  let (tables, places) ← s.placesFor index
  PerDim.ofFnM fun d => (tables.get d).rowAt (places.get d)

structure Arguments where
  (bounds levelCounts pins : Value)

/-- The calls on a space of factors: its levels are not set up one by one. -/
def call : Call Arguments Empty → Update FactorState Journal
  | .init args => init args.bounds args.levelCounts args.pins

end FactorState

end LoopTiling
