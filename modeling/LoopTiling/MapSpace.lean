import LoopTiling.Decimal.Count
import LoopTiling.Hierarchy
import LoopTiling.Mapping
import LoopTiling.Space.Product
import LoopTiling.Space.Reports

/-!
# Mapspaces

The mapspace of a workload on a level hierarchy is the product of the spaces of tile factors, loop
orders and spatial splits, in this order from the least significant part of the index. Where the
hierarchy prunes, dimensions whose factor at a level is forced to one stand first in the order of
that level, and its split does not fall among them.
-/
namespace LoopTiling

variable [Text.DigitLimit]

/-- What an index of a mapspace names: factors, orders and splits. -/
structure Assignment where
  factors : PerDim (List Nat)
  /-- The loop order of each level, innermost first. -/
  orders : List (List Dim)
  splits : LevelTable Numeral
deriving DecidableEq

structure MapSpace where
  workload : Workload
  hierarchy : Hierarchy
  factors : FactorSpace
  orders : OrderSpace
  splits : SplitSpace
  pruned : List (List Dim)
  sizes : List Nat

namespace MapSpace

/-- Whether the factor of a dimension at a level is forced to one. -/
def isUnit (w : Workload) (l : Level) (d : Dim) : Bool :=
  w.bounds.get d == 1 || (l.factor? d).map Numeral.toInt == some 1

/-- The dimensions that stand first in the order of a level. -/
def prunedAt (w : Workload) (h : Hierarchy) (l : Level) : List Dim :=
  if h.prunes then Dim.all.filter (isUnit w l) else []

def factorSpace (w : Workload) (h : Hierarchy) : Except Fault FactorSpace := do
  let bounds := w.bounds.map fun (n : Nat) => Value.int n
  let levelCounts := PerDim.ofFn fun _ => Value.int h.levelCount
  FactorSpace.ofTables (← FactorSpace.tabulate bounds levelCounts (.ofFn h.pinTable))

def setOrder (w : Workload) (h : Hierarchy) (s : OrderSpace) (level : Level × Nat) :
    Except Fault OrderSpace :=
  s.setLevel (.int level.2) level.1.lead (prunedAt w h level.1)

def orderSpace (w : Workload) (h : Hierarchy) : Except Fault OrderSpace := do
  h.levels.zipIdx.foldlM (setOrder w h) (← OrderSpace.ofLevelCount (.int h.levelCount))

/-- Sets up the splits of a level, unless it is temporal. -/
def setSplit (w : Workload) (h : Hierarchy) (s : SplitSpace) (level : Level × Nat) :
    Except Fault SplitSpace :=
  if level.1.isSpatial then
    match level.1.split with
    | some split => s.setFixed (.int level.2) split.toValue
    | none => s.setFree (.int level.2) (.int (prunedAt w h level.1).length)
  else .ok s

def splitSpace (w : Workload) (h : Hierarchy) : Except Fault SplitSpace := do
  h.levels.zipIdx.foldlM (setSplit w h) (← SplitSpace.ofLevelCount (.int h.levelCount))

/-- The spaces of a workload on a hierarchy put together. -/
def assemble (w : Workload) (h : Hierarchy) : Except Fault MapSpace := do
  let factors ← factorSpace w h
  let orders ← orderSpace w h
  let splits ← splitSpace w h
  let axes ← Counter.ofSizes [factors.size, ← orders.size, splits.size]
  return {
    workload := w
    hierarchy := h
    factors := factors
    orders := orders
    splits := splits
    pruned := h.levels.map (prunedAt w h)
    sizes := axes.radices }

def size (m : MapSpace) : Nat := Radix.volume m.sizes

def split (m : MapSpace) (index : Value) : Except Fault (List Nat) := Space.split m.sizes index

def encode (m : MapSpace) (factors orders splits : Value) : Except Fault Number :=
  Radix.encode (m.sizes.map fun (n : Nat) => .int n) [factors, orders, splits]

def assignmentAt (m : MapSpace) (index : Value) : Except Fault Assignment := do
  let place ← index.placeIn "mapping" m.size
  match Radix.digits m.sizes place with
  | [f, o, s] => do
    let factors ← m.factors.decode (.int f)
    let orders ← m.orders.decode (.int o)
    return ⟨factors, orders, ← m.splits.decode (.int s)⟩
  | _ => throw (.unsupported .index)

def factorsOfLevel (factors : PerDim (List Nat)) (level : Nat) : Value :=
  .map (Dim.all.map fun d => (.text d.name, .int ((factors.get d).getD level 1)))

def mappingOf (m : MapSpace) (place : Nat) (a : Assignment) : Mapping where
  mappingId := .int place
  loopBounds := .map ((List.range m.hierarchy.levelCount).map fun (level : Nat) =>
    (.int level, factorsOfLevel a.factors level))
  permutation := .map (a.orders.zipIdx.map fun (order, level) =>
    (.int level, .list (order.map fun d => .text d.name)))
  splits := .map (a.splits.map fun (level, split) => (level.toValue, split.toValue))
  levelNames := .list m.hierarchy.names
  subIndices := (Radix.digits m.sizes place).map fun (i : Nat) => .int i
  workloadName := m.workload.name
  workloadBounds := .list m.workload.boundValues

def decode (m : MapSpace) (index : Value) : Except Fault Mapping := do
  let place ← index.placeIn "mapping" m.size
  return m.mappingOf place (← m.assignmentAt index)

def sizesOf (m : MapSpace) : Nat × Nat × Nat :=
  (m.sizes.getD 0 1, m.sizes.getD 1 1, m.sizes.getD 2 1)

def tableSizes (m : MapSpace) : List Nat :=
  match m.factors.tables with
  | some tables => FactorSpace.sizes tables
  | none => []

def summary (m : MapSpace) : Except Fault String := do
  let (factors, orders, splits) := m.sizesOf
  let name ← shown m.workload.name.text?
  let factorCount ← shown (Decimal.count? factors)
  let orderCount ← shown (Decimal.count? orders)
  let splitCount ← shown (Decimal.count? splits)
  let total ← shown (Decimal.count? m.size)
  let exact ← shown (Text.decimal? m.size)
  let tables := (Dim.all.zip m.tableSizes).map fun (d, n) => s!"    {d.name}: {n}"
  let levels := m.orders.patterns.zipIdx.map fun (e, i) => s!"    L{i}: {e.2.size}"
  return "\n".intercalate
    (s!"Mapspace: {name}" ::
      s!"  Factorizations: {factorCount}" :: tables ++
      s!"  Permutations:   {orderCount}" :: levels ++
      [s!"  Spatial splits: {splitCount}", s!"  Total:          {total} ({exact})"])

def builtLine (m : MapSpace) : Except Fault String := do
  let (factors, orders, splits) := m.sizesOf
  let name ← shown m.workload.name.text?
  let total ← shown (Decimal.count? m.size)
  let factorCount ← shown (Decimal.count? factors)
  let orderCount ← shown (Decimal.count? orders)
  let splitCount ← shown (Decimal.count? splits)
  return s!"Mapspace for {name}: {total} mappings (factorizations={factorCount}, " ++
    s!"permutations={orderCount}, splits={splitCount})"

/-- A mapspace, which must be one that can be summed up. -/
def checked (m : MapSpace) : Except Fault MapSpace := do
  let _ ← m.builtLine
  return m

def build (w : Workload) (h : Hierarchy) : Except Fault MapSpace := do (← assemble w h).checked

def setupReported (m : MapSpace) : Journal :=
  m.factors.reported ++
    m.orders.patterns.flatMap (fun e => journalOf (e.2.reported e.1)) ++
    m.splits.rules.flatMap fun e => journalOf (e.2.reported e.1)

def reported (m : MapSpace) : Journal :=
  m.setupReported ++
    match m.builtLine with
    | .ok line => [⟨.info, line⟩]
    | .error _ => []

end MapSpace

end LoopTiling
