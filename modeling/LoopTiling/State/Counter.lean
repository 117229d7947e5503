import LoopTiling.Space.Counter
import LoopTiling.State.Update

/-!
# The state of a counter

A counter remembers its radices and their product, which it takes once when it is set up.
-/
namespace LoopTiling

structure CounterState where
  radices : List Nat := []
  /-- The product of the radices. -/
  size : Nat := 1
deriving DecidableEq, Inhabited

namespace CounterState

variable [Text.DigitLimit]

def init (radices : Value) : Update CounterState Journal := do
  let rs ← .check (do Counter.checkRadices 0 (← radices.items))
  modify fun c => { c with radices := rs }
  modify fun c => { c with size := Radix.volume c.radices }
  return []

/-- The counter that is made with the sizes of spaces as its radices. -/
def ofSizes (sizes : List Nat) : Except Fault CounterState := do
  let c ← Counter.ofSizes sizes
  return ⟨c.radices, Radix.volume c.radices⟩

def counter (c : CounterState) : Counter := ⟨c.radices⟩

def decode (c : CounterState) (index : Value) : Except Fault (List Nat) :=
  Radix.digits c.radices <$> index.placeIn "mixed-radix" c.size

def describe (c : CounterState) : Except Fault String := do
  let radices ← shown (Value.list c.counter.radixValues).quoted?
  let size ← shown (Text.decimal? c.size)
  return s!"MixedRadixCounter(radices={radices}, size={size})"

/-- The calls on a counter: it has no levels. -/
def call : Call Value Empty → Update CounterState Journal
  | .init radices => init radices

end CounterState

end LoopTiling
