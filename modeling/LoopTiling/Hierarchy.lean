import LoopTiling.Journal
import LoopTiling.Level

/-!
# Level hierarchies

A hierarchy is a list of tiling levels with different names, innermost first, and whether the
dimensions that have a unit factor at a level are kept in front of its loop order.
-/
namespace LoopTiling

structure Hierarchy where
  levels : List Level
  /-- Counts as true where unit dimensions are pruned. -/
  prune : Value := .flag true

namespace Hierarchy

variable [Text.DigitLimit]

def levelCount (h : Hierarchy) : Nat := h.levels.length

def prunes (h : Hierarchy) : Bool := h.prune.truthy

/-- Refuses a name that comes twice, or that cannot be told from others. -/
def checkNames : (seen names : List Value) → Except Fault Unit
  | _, [] => .ok ()
  | seen, name :: names =>
    if !name.isKey then .error (.unsupported .type)
    else if seen.any fun n => n.same name then .error (.levelNamedTwice name)
    else checkNames (name :: seen) names

def ofLevels (levels : List Level) (prune : Value) : Except Fault Hierarchy := do
  if levels.isEmpty then throw .noLevels
  checkNames [] (levels.map Level.name)
  return ⟨levels, prune⟩

/-- Register files, an array of processing elements, a global buffer and main memory. -/
def defaultLevels : List Level :=
  [{ name := .text "RegisterFile" }, { name := .text "PEArray", spatial := .flag true },
    { name := .text "GlobalBuffer" }, { name := .text "DRAM" }]

def default : Hierarchy := { levels := defaultLevels }

/-- The section of a configuration under the first of the names that it has, or the whole
configuration. -/
def sectionOf (config : Value) : List String → Except Fault Value
  | [] => .ok config
  | name :: names => do
    if ← config.has (.text name) then
      match config with
      | .map es => return Value.fieldD name es .null
      | _ => throw (.unsupported .type)
    else sectionOf config names

def ofConfig (config : Value) : Except Fault Hierarchy := do
  let config ← sectionOf config ["mapspace", "architecture"]
  let es ← config.entries
  match Value.fieldD "levels" es .null with
  | .list levels =>
    ofLevels (← levels.mapM Level.ofConfig)
      (.flag (Value.fieldD "prune_unit_dimensions" es (.flag true)).truthy)
  | _ => throw .noLevelList

def toConfig (h : Hierarchy) : Value :=
  .map [(.text "mapspace",
    .map [(.text "prune_unit_dimensions", h.prune),
      (.text "levels", .list (h.levels.map Level.toConfig))])]

def names (h : Hierarchy) : List Value := h.levels.map Level.name

def placesByName (h : Hierarchy) : List (Value × Value) :=
  h.names.zipIdx.map fun (name, i) => (name, .int i)

def namesByPlace (h : Hierarchy) : List (Value × Value) :=
  h.names.zipIdx.map fun (name, i) => (.int i, name)

def spatialPlaces (h : Hierarchy) : List Nat :=
  (h.levels.zipIdx.filter fun (l, _) => l.isSpatial).map Prod.snd

/-- The level with a name or at a place, if there is one. -/
def level? (h : Hierarchy) (key : Value) : Option Level :=
  match key with
  | .text s => h.levels.find? fun l => l.name.same (.text s)
  | .word _ => none
  | _ =>
    match key.index? with
    | some i => if i < 0 then none else h.levels[i.toNat]?
    | none => none

/-- The level at a place, which counts from the end when it is negative. -/
def levelAt (h : Hierarchy) (place : Value) : Except Fault Level :=
  match place.index? with
  | none => .error (.unsupported .type)
  | some i =>
    let i := if i < 0 then i + h.levels.length else i
    match if i < 0 then none else h.levels[i.toNat]? with
    | some l => .ok l
    | none => .error (.unsupported .index)

/-- The dimensions that have pins, in the order in which the levels name them. -/
def pinnedDims (h : Hierarchy) : List Dim := (h.levels.flatMap fun l => l.factors.map Prod.fst).eraseDups

/-- The pinned factors of a dimension by level. -/
def pinsOf (h : Hierarchy) (d : Dim) : List (Nat × Numeral) :=
  h.levels.zipIdx.filterMap fun (l, i) => (l.factor? d).map fun f => (i, f)

def pinTable (h : Hierarchy) (d : Dim) : Value :=
  .map ((h.pinsOf d).map fun (i, f) => (.int i, f.toValue))

def pinMap (h : Hierarchy) : Value := .map (h.pinnedDims.map fun d => (.dim d, h.pinTable d))

def summary (h : Hierarchy) : Except Fault String := do
  let lines ← h.levels.zipIdx.mapM fun (l, i) => l.summaryLine i
  return "\n".intercalate (s!"Tiling levels: {h.levelCount} (innermost first)" :: lines)

def loaded (h : Hierarchy) (path : String) : Journal :=
  [⟨.debug, s!"Loaded {h.levelCount} tiling levels from {path}"⟩]

end Hierarchy

end LoopTiling
