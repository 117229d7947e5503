import LoopTiling.Divisor
import LoopTiling.Value.Access

/-!
# Factor tables

A factor table lists every way of writing one dimension's bound as an ordered product with one factor
per tiling level. Pinned levels have their factor given; the rows are those of all products over
the free levels, in ascending lexicographic order.
-/
namespace LoopTiling

/-- Every ordered product of `count` positive factors that makes `residual`, in lexicographic
order. -/
def orderedProducts (residual : Nat) : (count : Nat) → List (List Nat)
  | 0 => if residual = 1 then [[]] else []
  | 1 => [[residual]]
  | count + 2 =>
    (Divisor.divisors residual).flatMap fun d =>
      (orderedProducts (residual / d) (count + 1)).map (d :: ·)

def fillSlots : List (Option Nat) → List Nat → List Nat
  | [], _ => []
  | some factor :: slots, free => factor :: fillSlots slots free
  | none :: slots, factor :: free => factor :: fillSlots slots free
  | none :: slots, [] => 1 :: fillSlots slots []

structure FactorTable where
  bound : Numeral
  levelCount : Numeral
  pins : List (Nat × Nat)
  /-- The factorizations, one factor per level. -/
  rows : List (List Nat)

namespace FactorTable

variable [Text.DigitLimit]

def slots (levelCount : Nat) (pins : List (Nat × Nat)) : List (Option Nat) :=
  (List.range levelCount).map fun level => pins.lookup level

def pinProduct : List (Nat × Nat) → Nat
  | [] => 1
  | (_, factor) :: pins => factor * pinProduct pins

/-- The rows of a table: the ordered products of what the pins leave of the bound. -/
def tabulate (bound levelCount : Nat) (pins : List (Nat × Nat)) : List (List Nat) :=
  let slots := slots levelCount pins
  (orderedProducts (bound / pinProduct pins) (slots.count none)).map (fillSlots slots)

/-- A positive numeral, or the fault for anything else. -/
def positive (fault : Value → Fault) (v : Value) : Except Fault Numeral :=
  match v.numeral? with
  | some n => if n.toInt < 1 then .error (fault v) else .ok n
  | none => .error (fault v)

def pinPart (what : String) (v : Value) : Except Fault Int :=
  match v.asWhole what with
  | .ok n => .ok n
  | .error _ => .error (.pinNotWhole what v)

/-- A pin: a level in range and a factor that divides the bound. -/
def checkPin (bound levelCount : Numeral) (pin : Value × Value) : Except Fault (Nat × Nat) := do
  let level ← pinPart "Pinned level" pin.1
  let place ← shown (Text.decimal? level)
  let factor ← pinPart s!"Pinned factor at level {place}" pin.2
  if level < 0 ∨ levelCount.toInt ≤ level then throw (.pinLevel level levelCount)
  if factor < 1 then throw (.pinFactor level factor)
  if bound.toInt % factor ≠ 0 then throw (.pinNotDivisor level factor bound)
  return (level.toNat, factor.toNat)

/-- Refuses pins that no factorization has together. -/
def checkPins (bound levelCount : Numeral) (pins : List (Nat × Nat)) : Except Fault Unit := do
  let product : Int := pinProduct pins
  if bound.toInt % product ≠ 0 then throw (.pinsNotDivisor product bound)
  if (pins.length : Int) = levelCount.toInt ∧ product ≠ bound.toInt then
    throw (.pinsMissBound levelCount product bound)

/-- The table of a bound, a number of levels and the factors pinned to levels; pins that count as
false are none. -/
def ofValues (bound levelCount pinned : Value) : Except Fault FactorTable := do
  let bound ← positive .factorBound bound
  let levelCount ← positive .factorLevelCount levelCount
  let given ← if pinned.truthy then pinned.entries else pure []
  let pins ← given.mapM (checkPin bound levelCount)
  checkPins bound levelCount pins
  return ⟨bound, levelCount, pins, tabulate bound.toInt.toNat levelCount.toInt.toNat pins⟩

def size (t : FactorTable) : Nat := t.rows.length

/-- The factorization at a place; beyond the end there is an empty one. -/
def row (t : FactorTable) (place : Nat) : List Nat := t.rows.getD place []

def rowAt (t : FactorTable) (index : Value) : Except Fault (List Nat) :=
  t.row <$> index.placeIn "factorization" t.size

def hasLevel (t : FactorTable) (level : Value) : Except Fault Bool := do
  let l ← level.asNumber
  return l.nonneg && l.less (.int t.levelCount.toInt)

/-- The factor at a level of a row. A level in range must be a whole number, and no truth value. -/
def factorIn (t : FactorTable) (row : List Nat) (level : Value) : Except Fault Nat := do
  if !(← t.hasLevel level) then throw (.factorLevel level t.levelCount)
  match level with
  | .flag _ => throw (.unsupported .type)
  | _ =>
    match level.index? with
    | some l => return row.getD l.toNat 1
    | none => throw (.unsupported .index)

def factorAt (t : FactorTable) (index level : Value) : Except Fault Nat := do
  t.factorIn (← t.rowAt index) level

def pinMap (t : FactorTable) : Value :=
  .map (t.pins.map fun (level, factor) => (.int level, .int factor))

def describe (t : FactorTable) : Except Fault String := do
  let bound ← shown t.bound.text?
  let levelCount ← shown t.levelCount.text?
  let pins ← shown t.pinMap.quoted?
  return s!"Factors(bound={bound}, num_levels={levelCount}, pinned={pins}, size={t.size})"

end FactorTable

end LoopTiling
