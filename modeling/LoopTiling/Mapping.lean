import LoopTiling.Value.Access
import LoopTiling.Value.Product
import LoopTiling.Value.Sorted
import LoopTiling.Workload

/-!
# Mappings

A mapping says how a workload runs on the tiling levels: the tile factor of every dimension at
every level, the loop order of every level, and how many dimensions of it a spatial level puts on
its X axis. A mapping is a record of values, since it may be read from a file as well as
decoded from a space; each question put to it refuses what it cannot be answered from.
-/
namespace LoopTiling

structure Mapping where
  mappingId : Value := .null
  /-- Level to dimension to factor. -/
  loopBounds : Value := .map []
  /-- Level to dimensions, innermost first. -/
  permutation : Value := .map []
  /-- Spatial level to the number of dimensions on the X axis. -/
  splits : Value := .map []
  levelNames : Value := .list []
  /-- The indices in the spaces of factors, orders and splits. -/
  subIndices : List Value := []
  workloadName : Value := .text ""
  workloadBounds : Value := .list []

namespace Mapping

variable [Text.DigitLimit]

/-- The mapping that a configuration records; what it leaves out is empty. -/
def ofConfig (config : Value) : Except Fault Mapping := do
  let es ← config.entries
  return {
    mappingId := Value.fieldD "mapping_id" es .null
    loopBounds := Value.fieldD "loop_bounds" es (.map [])
    permutation := Value.fieldD "permutation" es (.map [])
    splits := Value.fieldD "spatial_splits" es (.map [])
    levelNames := Value.fieldD "level_names" es (.list [])
    subIndices := ← (Value.fieldD "sub_indices" es (.tuple [])).items
    workloadName := Value.fieldD "workload_name" es (.text "")
    workloadBounds := Value.fieldD "workload_bounds" es (.list []) }

def getD (table key default : Value) : Except Fault Value := do
  return (← Value.lookup key (← table.entries)).getD default

/-- A product with the factors that a level has for dimensions, one where it has none. -/
def multiply (bounds : Value) : List Value → Product → Except Fault Product
  | [], product => .ok product
  | d :: ds, product => do multiply bounds ds (← product.times (← getD bounds d (.int 1)))

/-- A product with the factor that each of several levels has for a dimension. A level that cannot be
found stops it. -/
def multiplyLevels (dim : Value) : List (Except Fault Value) → Product → Except Fault Product
  | [], product => .ok product
  | level :: levels, product => do
    let bounds ← level
    multiplyLevels dim levels (← multiply bounds [dim] product)

/-- The number of levels up to and including a given one. The level after the last word is the first
word. -/
def levelsUpTo (level : Value) : Except Fault Int :=
  match level with
  | .word w => .ok (w + 1).toInt
  | _ =>
    match level.index? with
    | some l => .ok (l + 1)
    | none => .error (.unsupported .type)

def wholeOf? (v : Value) : Option Int := v.number?.bind Divisor.wholeOf?

/-- The levels below a number that are among given values, ascending. -/
def levelsAmong (count : Int) (vs : List Value) : List Int :=
  ((vs.filterMap wholeOf?).filter fun l => 0 ≤ l && l < count).mergeSort.eraseDups

def levelsBelow (m : Mapping) (count : Int) : Except Fault (List (Except Fault Value)) :=
  if count ≤ 0 then .ok []
  else
    match m.loopBounds with
    | .map _ | .list _ | .tuple _ => do
      return (levelsAmong count (← m.loopBounds.items)).map fun l => m.loopBounds.part (.int l)
    | _ => .error (.unsupported .type)

/-- The tile size of a dimension: the product of its factors up to a level. -/
def tileSize (m : Mapping) (level dim : Value) : Except Fault Product := do
  multiplyLevels dim (← m.levelsBelow (← levelsUpTo level)) .one

/-- The loop order of a level, innermost first; none is recorded as the empty one. -/
def loopOrder (m : Mapping) (level : Value) : Except Fault (List Value) := do
  (← getD m.permutation level (.list [])).items

/-- The part of an order before a split and the part from it on. -/
def partAt (order : List Value) (split : Value) : Except Fault (List Value × List Value) :=
  match split with
  | .null => .ok (order, order)
  | _ =>
    match split.index? with
    | some i =>
      let place := Value.cutPlace order.length i
      .ok (order.take place, order.drop place)
    | none => .error (.unsupported .type)

/-- The dimensions of a spatial level on the X axis and those on the Y axis. -/
def spatialPartition (m : Mapping) (level : Value) :
    Except Fault (List Value × List Value) := do
  if !(← m.splits.has level) then throw (.notSpatial level)
  let order ← m.loopOrder level
  partAt order (← m.splits.part level)

/-- The number of instances of a spatial level along X and along Y. -/
def fanout (m : Mapping) (level : Value) : Except Fault (Product × Product) := do
  let (x, y) ← m.spatialPartition level
  let bounds ← getD m.loopBounds level (.map [])
  let fanoutX ← multiply bounds x .one
  return (fanoutX, ← multiply bounds y .one)

def mapEntries (f : Value → Except Fault Value) (table : Value) : Except Fault Value := do
  return .map (← (← table.entries).mapM fun e => do return (e.1, ← f e.2))

def toConfig (m : Mapping) : Except Fault Value := do
  let loopBounds ← mapEntries (fun b => do return .map (← b.toMap)) m.loopBounds
  let permutation ← mapEntries (fun p => do return .list (← p.items)) m.permutation
  let splits ← m.splits.toMap
  let levelNames ← m.levelNames.items
  let workloadBounds ← m.workloadBounds.items
  return .map [
    (.text "mapping_id", m.mappingId),
    (.text "loop_bounds", loopBounds),
    (.text "permutation", permutation),
    (.text "spatial_splits", .map splits),
    (.text "level_names", .list levelNames),
    (.text "sub_indices", .list m.subIndices),
    (.text "workload_name", m.workloadName),
    (.text "workload_bounds", .list workloadBounds)]

def joined (vs : List Value) : Except Fault String := do
  let parts ← vs.mapM fun v =>
    match v with
    | .text s => pure s
    | _ => throw (.unsupported .type)
  return String.join parts

def orDash (s : String) : String := if s.isEmpty then "-" else s

def loopText? (bounds dim : Value) : Except Fault (Option String) := do
  let factor ← getD bounds dim (.int 1)
  if ← Value.less (.int 1) factor then
    let name ← shown dim.text?
    let extent ← shown factor.text?
    return some s!"{name}={extent}"
  return none

/-- The loops of an order that run more than once, outermost first. -/
def loopTexts (bounds : Value) (order : List Value) : Except Fault (List String) := do
  return (← order.reverse.mapM (loopText? bounds)).filterMap id

/-- The name of the level at a place, or the place itself where no name is recorded. -/
def levelName (m : Mapping) (level : Value) : Except Fault Value := do
  let count ← m.levelNames.length
  if ← level.less (.int count) then m.levelNames.part level
  else
    let place ← shown level.text?
    return .text s!"L{place}"

def splitLine (m : Mapping) (level : Value) : Except Fault String := do
  let (x, y) ← m.spatialPartition level
  let (fanoutX, fanoutY) ← m.fanout level
  let split ← shown (← m.splits.part level).text?
  let namesX ← joined x
  let countX ← shown fanoutX.toValue.text?
  let namesY ← joined y
  let countY ← shown fanoutY.toValue.text?
  return s!"    split={split} X={orDash namesX} ({countX}) Y={orDash namesY} ({countY})"

def levelLines (m : Mapping) (level bounds : Value) : Except Fault (List String) := do
  let name ← m.levelName level
  let spatial ← m.splits.has level
  let place ← shown level.text?
  let nameText ← shown name.text?
  let order ← m.loopOrder level
  let loops := ", ".intercalate (← loopTexts bounds order)
  let names ← joined order
  let lines := [
    s!"  Level {place} [{nameText}] ({Level.kindText spatial}):",
    s!"    loops (outer->inner): {orDash loops}",
    s!"    order (inner->outer): {names}"]
  if spatial then return lines ++ [← m.splitLine level] else return lines

def headLine (m : Mapping) : Except Fault String := do
  let mappingId ← shown m.mappingId.text?
  let workload ← shown m.workloadName.text?
  return s!"Mapping #{mappingId}: {workload}"

def bodyLines (m : Mapping) : Except Fault (List String) := do
  let levels ← Value.sortedDown Prod.fst (← m.loopBounds.entries)
  let blocks ← levels.mapM fun e => m.levelLines e.1 e.2
  return String.ofList (List.replicate 50 '=') :: blocks.flatten

def pretty (m : Mapping) : Except Fault String := do
  let head ← m.headLine
  return "\n".intercalate (head :: (← m.bodyLines))

/-- The factors of every recorded level: the values of a map, or the items of a list that its items
name. -/
def recordedLevels (m : Mapping) : Except Fault (List (Except Fault Value)) :=
  match m.loopBounds with
  | .map es => .ok (es.map fun e => .ok e.2)
  | v => do return (← v.items).map v.part

/-- The fault of a dimension whose factors do not make its bound. -/
def boundError (m : Mapping) (w : Workload) (d : Dim) : Except Fault (Option String) := do
  let product ← multiplyLevels (.text d.name) (← m.recordedLevels) .one
  let bound := w.bounds.get d
  if ← product.isNumber bound then return none
  let found ← shown product.toValue.text?
  let wanted ← shown (Text.decimal? bound)
  return some (s!"Dimension {d.name}: product of factors ({found}) != problem size ({wanted})")

def sortedNames : List Value := ["C", "K", "N", "P", "Q", "R", "S"].map .text

/-- The fault of a level whose order is not one of all dimensions. -/
def orderError (level order : Value) : Except Fault (Option String) := do
  if ← Value.equal (.list (← Value.sorted (← order.items))) (.list sortedNames) then return none
  let place ← shown level.text?
  let given ← shown order.text?
  return some s!"Level {place}: loop order {given} is not a permutation of all dimensions"

def validate (m : Mapping) (w : Workload) : Except Fault (List String) := do
  let bounds ← Dim.all.mapM (m.boundError w)
  let orders ← (← m.permutation.entries).mapM fun e => orderError e.1 e.2
  return (bounds ++ orders).filterMap id

end Mapping

end LoopTiling
