import LoopTiling.Radix.Mixed
import LoopTiling.Value.Access

/-!
# Counters

A counter is a product of axes that are plain ranges. Its members are digit lists, addressed by
their mixed radix rank.
-/
namespace LoopTiling

/-- A product of ranges. Without axes it has one member. -/
structure Counter where
  /-- The size of each axis, positive. -/
  radices : List Nat := []
deriving DecidableEq, Inhabited

namespace Counter

variable [Text.DigitLimit]

/-- The size of an axis: a positive value that equals its whole part, and no truth value. -/
def checkRadix (axis : Nat) (v : Value) : Except Fault Nat :=
  match v with
  | .flag _ => .error (.axisRadix axis v)
  | _ => do
    let n ← v.toWhole
    if !(Value.int n).same v || n < 1 then throw (.axisRadix axis v)
    return n.toNat

def checkRadices : (axis : Nat) → List Value → Except Fault (List Nat)
  | _, [] => .ok []
  | axis, v :: vs => do
    let r ← checkRadix axis v
    return r :: (← checkRadices (axis + 1) vs)

/-- The counter whose axes are spaces of the given sizes. -/
def ofSizes (sizes : List Nat) : Except Fault Counter := do
  return ⟨← checkRadices 0 (sizes.map fun (n : Nat) => .int n)⟩

def radixValues (c : Counter) : List Value := c.radices.map fun (r : Nat) => .int r

def encode (c : Counter) (digits : List Value) : Except Fault Number :=
  Radix.encode c.radixValues digits

end Counter

end LoopTiling
