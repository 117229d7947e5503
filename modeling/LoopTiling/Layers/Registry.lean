import LoopTiling.Journal
import LoopTiling.Layers.Packaged
import LoopTiling.Level

/-!
# Layer registries

A registry gives named convolution layers their bounds. On request it rounds an extent that has few
divisors up to a composite one, as its table of nearest composites says.
-/
namespace LoopTiling

structure Registry where
  layers : List (String × List (Dim × Numeral))
  /-- What an extent is rounded up to. -/
  composites : List (Int × Int)

namespace Registry

variable [Text.DigitLimit]

/-- The bound that an entry gives a dimension: a positive numeral. -/
def readBound (layer : String) (e : Value × Value) : Except Fault (Dim × Numeral) := do
  let d ← e.1.asDim
  match e.2.numeral? with
  | some n => if n.toInt < 1 then throw (.layerBound layer d e.2) else return (d, n)
  | none => throw (.layerBound layer d e.2)

def readBounds (layer : String) (dims : Value) : Except Fault (List (Dim × Numeral)) := do
  let named ← (← dims.entries).mapM (readBound layer)
  let bounds := named.foldl (fun t e => setKey e.1 e.2 t) []
  let missing := Dim.all.filter fun d => (bounds.lookup d).isNone
  if !missing.isEmpty then throw (.layerMissing layer missing)
  return bounds

def readLayer (e : Value × Value) : Except Fault (String × List (Dim × Numeral)) := do
  let name ← shown e.1.text?
  return (name, ← readBounds name e.2)

def readComposite (e : Value × Value) : Except Fault (Int × Int) := do
  let extent ← e.1.toWhole
  return (extent, ← e.2.toWhole)

def ofTables (layers composites : Value) : Except Fault Registry := do
  let named ← (← layers.entries).mapM readLayer
  let rounded ← (← if composites.truthy then composites.entries else pure []).mapM readComposite
  return ⟨named.foldl (fun t e => setKey e.1 e.2 t) [],
    rounded.foldl (fun t e => setKey e.1 e.2 t) []⟩

/-- The registry of a configuration, which must have a section of layers. -/
def ofConfig (config : Value) : Except Fault Registry := do
  if !(← config.has (.text "layers")) then throw .noLayers
  match config with
  | .map es => ofTables (Value.fieldD "layers" es .null) (Value.fieldD "nearest_composite" es .null)
  | _ => throw (.unsupported .type)

def packaged : Registry where
  layers := Layers.packagedShapes.map fun (name, bounds) =>
    (name, Dim.all.map fun d => (d, .plain (bounds.get d)))
  composites := Layers.packagedComposites

def size (g : Registry) : Nat := g.layers.length

def names (g : Registry) : List String := g.layers.map Prod.fst

/-- The bounds that a name stands for, if it does. -/
def find? (g : Registry) (name : Value) : Except Fault (Option (List (Dim × Numeral))) :=
  if !name.isKey then .error (.unsupported .type)
  else
    match name with
    | .text s => .ok (g.layers.lookup s)
    | _ => .ok none

def contains (g : Registry) (name : Value) : Except Fault Bool := Option.isSome <$> g.find? name

def round (g : Registry) (bound : Numeral) : Numeral :=
  match g.composites.lookup bound.toInt with
  | some c => .plain c
  | none => bound

def bounds (g : Registry) (name : Value) : Except Fault (List (Dim × Numeral)) := do
  match ← g.find? name with
  | some bounds => return bounds
  | none => throw (.unknownLayer name)

def rounding? (g : Registry) (name : Value) (bound : Dim × Numeral) : Option (Except Fault Record) :=
  (g.composites.lookup bound.2.toInt).map fun c => do
    let layer ← shown name.text?
    let before ← shown bound.2.text?
    let after ← shown (Text.decimal? c)
    return ⟨.debug, s!"Padding {layer}.{bound.1.name} from {before} to {after}"⟩

def roundingsOf (g : Registry) (name pad : Value) (bounds : List (Dim × Numeral)) :
    List (Except Fault Record) :=
  if pad.truthy then bounds.filterMap (g.rounding? name) else []

/-- The bounds of a named layer, rounded up on request. Each bound that is rounded up must be one
that can be reported. -/
def lookup (g : Registry) (name pad : Value) : Except Fault (List (Dim × Numeral)) := do
  let bounds ← g.bounds name
  let _ ← (g.roundingsOf name pad bounds).mapM id
  return if pad.truthy then bounds.map fun (d, b) => (d, g.round b) else bounds

/-- The records up to the first that cannot be shown. -/
def shownRecords : List (Except Fault Record) → Journal
  | .ok r :: rest => r :: shownRecords rest
  | _ => []

/-- What a lookup reports: each bound that it rounds up. -/
def roundings (g : Registry) (name pad : Value) : Journal :=
  match g.bounds name with
  | .error _ => []
  | .ok bounds => shownRecords (g.roundingsOf name pad bounds)

def compositeMap (g : Registry) : Value := .map (g.composites.map fun (e, c) => (.int e, .int c))

def boundMap (bounds : List (Dim × Numeral)) : Value :=
  .map (bounds.map fun (d, b) => (.dim d, b.toValue))

def loaded (g : Registry) (path : String) : Journal :=
  [⟨.debug, s!"Loaded {g.size} layers from {path}"⟩]

end Registry

end LoopTiling
