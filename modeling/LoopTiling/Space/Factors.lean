import LoopTiling.FactorTable
import LoopTiling.Space.Counter

/-!
# The space of tile factors

A member gives each dimension one factor per level. The space holds a factor table for each
dimension; the sizes of the tables, in canonical order of the dimensions, are the radices of its
index.
-/
namespace LoopTiling

/-- The space of tile factors, without tables until it is set up. -/
structure FactorSpace where
  tables : Option (PerDim FactorTable) := none

def dimEntries (es : List (Value × Value)) : Except Fault (List (Dim × Value)) :=
  es.mapM fun e => do return (← e.1.asDim, e.2)

/-- The value that the last entry for a dimension gives. -/
def lastFor? (d : Dim) (es : List (Dim × Value)) : Option Value := es.reverse.lookup d

/-- One value for each dimension: from a map whose keys name all dimensions, from one whole number
that holds for all, or from a list in canonical order. -/
def perDim (what : String) (v : Value) : Except Fault (PerDim Value) :=
  match v with
  | .map es => do
    let named ← dimEntries es
    let missing := Dim.all.filter fun d => (lastFor? d named).isNone
    if !missing.isEmpty then throw (.missingPerDim what missing)
    return .ofFn fun d => (lastFor? d named).getD .null
  | .flag _ | .int _ | .dim _ => .ok (.ofFn fun _ => v)
  | _ => do
    let vs ← v.items
    match vs with
    | [r, s, p, q, c, k, n] => return ⟨r, s, p, q, c, k, n⟩
    | _ => throw (.perDimLength what vs.length)

namespace FactorSpace

variable [Text.DigitLimit]

/-- Says which dimension an invalid table is for. -/
def nameDim {α : Type} (d : Dim) : Except Fault α → Except Fault α
  | .error fault => .error (if fault.kind = .configuration then .inDimension d fault else fault)
  | .ok a => .ok a

def tabulate (bounds levelCounts pins : PerDim Value) : Except Fault (PerDim FactorTable) :=
  PerDim.ofFnM fun d =>
    nameDim d (FactorTable.ofValues (bounds.get d) (levelCounts.get d) (pins.get d))

/-- The pins of each dimension, in a map whose keys name dimensions. -/
def readPins (v : Value) : Except Fault (PerDim Value) := do
  let named ← dimEntries (← if v.truthy then v.entries else pure [])
  return .ofFn fun d => (lastFor? d named).getD .null

def sizes (tables : PerDim FactorTable) : List Nat := tables.toList.map FactorTable.size

/-- The space of given tables, each of which must have a row. -/
def ofTables (tables : PerDim FactorTable) : Except Fault FactorSpace := do
  let _ ← Counter.ofSizes (sizes tables)
  return ⟨some tables⟩

def size (s : FactorSpace) : Nat :=
  match s.tables with
  | some tables => Radix.volume (sizes tables)
  | none => 1

/-- The tables and the row of each that an index names. -/
def rowsFor (s : FactorSpace) (index : Value) :
    Except Fault (PerDim FactorTable × PerDim Nat) :=
  match s.tables with
  | none => .error .factorSpaceEmpty
  | some tables => do
    let place ← index.placeIn "mixed-radix" (Radix.volume (sizes tables))
    let digits := Radix.digits (sizes tables) place
    return (tables, .ofFn fun d => digits.getD d.index 0)

/-- The factors of every dimension in the member that an index names. -/
def decode (s : FactorSpace) (index : Value) : Except Fault (PerDim (List Nat)) := do
  let (tables, rows) ← s.rowsFor index
  return .ofFn fun d => (tables.get d).row (rows.get d)

end FactorSpace

end LoopTiling
