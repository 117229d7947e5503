import LoopTiling.Divisor
import LoopTiling.Layers.Registry
import LoopTiling.Radix.Mixed
import LoopTiling.Text.Digit

/-!
# Convolution workloads

A workload is the bounds of the seven dimensions, with a name, a path that tells where it comes from,
and strides and dilations, which are carried along. Its bounds are given one by one, or by a named
layer some of whose bounds are overridden.
-/
namespace LoopTiling

/-- A convolution layer to be mapped. -/
structure Workload where
  name : Value
  /-- The extent of each dimension, positive. -/
  bounds : PerDim Nat
  stride : Value
  dilation : Value
  path : Value

namespace Workload

variable [Text.DigitLimit]

def defaultName : Value := .text "conv_workload"

def unitPair : Value := .tuple [.int 1, .int 1]

def defaultBounds : PerDim Value := PerDim.map (fun (n : Nat) => .int n) ⟨3, 3, 56, 56, 64, 64, 1⟩

/-- A bound: a positive integer in any form but a truth value. -/
def checkBound (name : Value) (d : Dim) (v : Value) : Except Fault Nat :=
  match v with
  | .flag _ => .error (.workloadBound name d v)
  | _ =>
    match v.index? with
    | some n => if n < 1 then .error (.workloadBound name d v) else .ok n.toNat
    | none => .error (.workloadBound name d v)

def ofParts (name : Value) (bounds : PerDim Value) (stride dilation path : Value) :
    Except Fault Workload := do
  let bounds ← PerDim.ofFnM fun d => checkBound name d (bounds.get d)
  return ⟨name, bounds, stride, dilation, path⟩

def partNames : List String := ["name", "stride", "dilation", "path"]

def isPartName (v : Value) : Bool :=
  (partNames ++ Dim.all.map Dim.name).any fun n => (Value.text n).same v

def ofArguments (arguments : Value) : Except Fault Workload := do
  let es ← arguments.entries
  if !es.all (fun e => isPartName e.1) then throw (.unsupported .type)
  ofParts (Value.fieldD "name" es defaultName)
    (.ofFn fun d => Value.fieldD d.name es (defaultBounds.get d))
    (Value.fieldD "stride" es unitPair) (Value.fieldD "dilation" es unitPair)
    (Value.fieldD "path" es defaultName)

/-- The entries of the problem that a configuration describes: its section of that name, or all
of it. -/
def problemOf (config path : Value) : Except Fault (List (Value × Value)) := do
  let es ← config.entries
  match Value.fieldD "problem" es config with
  | .map problem => return problem
  | _ => throw (.problemNotMap path)

/-- The name of the layer that a problem starts from, and whether to round its bounds up. -/
def layerOf (problem : List (Value × Value)) : Value × Value :=
  (Value.fieldD "layer" problem .null, Value.fieldD "padPrimes" problem (.flag true))

/-- The bounds of a problem, and its name if it does not give one. -/
def readBounds (g : Registry) (problem : List (Value × Value)) (path : Value) :
    Except Fault (PerDim Value × Value) := do
  let (layer, pad) := layerOf problem
  if layer.isNull then
    let missing := Dim.all.filter fun d => (Value.field? d.name problem).isNone
    if !missing.isEmpty then throw (.problemMissing path missing)
    return (.ofFn fun d => Value.fieldD d.name problem .null, defaultName)
  else
    let bounds ← g.lookup layer pad
    return (.ofFn fun d =>
      Value.fieldD d.name problem (((bounds.lookup d).map Numeral.toValue).getD .null), layer)

/-- Two entries of a problem as a pair, each one if it is not there. -/
def pairOf (problem : List (Value × Value)) (first second : String) : Value :=
  .tuple [Value.fieldD first problem (.int 1), Value.fieldD second problem (.int 1)]

def ofConfig (g : Registry) (config path : Value) : Except Fault Workload := do
  let problem ← problemOf config path
  let (bounds, name) ← readBounds g problem path
  ofParts (Value.fieldD "name" problem name) bounds (pairOf problem "Wstride" "Hstride")
    (pairOf problem "Wdilation" "Hdilation") path

def reported (g : Registry) (config path : Value) : Journal :=
  match problemOf config path with
  | .error _ => []
  | .ok problem =>
    let (layer, pad) := layerOf problem
    if layer.isNull then [] else g.roundings layer pad

def layerConfig (layer pad : Value) : Value :=
  .map [(.text "layer", layer), (.text "padPrimes", pad)]

def ofLayer (g : Registry) (layer pad : Value) : Except Fault Workload :=
  ofConfig g (layerConfig layer pad) layer

def boundOf (w : Workload) (dim : Value) : Except Fault Nat := w.bounds.get <$> dim.asDim

/-- The divisors of each bound, in canonical order. -/
def divisors (w : Workload) : List (List Nat) := w.bounds.toList.map Divisor.divisors

/-- Whether bounds have no common integer form of 64 bits: each fits an unsigned word, but one only
an unsigned and another a signed one as well. -/
def mixesWords (bounds : List Nat) : Bool :=
  bounds.all (· < 2 * Number.wordLimit) && bounds.any (Number.wordLimit ≤ ·) &&
    bounds.any (· < Number.wordLimit)

/-- The product of bounds as floating numbers, rounded after each factor. -/
def roundedVolume (bounds : List Nat) : Nat :=
  ((bounds.foldl (fun x b => x.mul (.ofInt b)) (Binary64.ofInt 1)).whole?.getD 0).toNat

/-- The number of multiplications, the product of the bounds. It is exact unless the bounds mix
signed and unsigned words, which meet as floating numbers. -/
def macs (w : Workload) : Nat :=
  let bounds := w.bounds.toList
  if mixesWords bounds then roundedVolume bounds else Radix.volume bounds

def partFields (v : Value) (first second : String) : Except Fault (List (Value × Value)) := do
  return [(.text first, ← v.part (.int 0)), (.text second, ← v.part (.int 1))]

def toConfig (w : Workload) : Except Fault Value := do
  let stride ← partFields w.stride "Wstride" "Hstride"
  let dilation ← partFields w.dilation "Wdilation" "Hdilation"
  let bounds := Dim.all.map fun d => (Value.text d.name, Value.int (w.bounds.get d))
  return .map [(.text "problem", .map ((.text "name", w.name) :: bounds ++ stride ++ dilation))]

def boundsText (w : Workload) : Except Fault String := do
  let parts ← Dim.all.mapM fun d => do
    let bound ← shown (Text.decimal? (w.bounds.get d))
    return s!"{d.name}={bound}"
  return ", ".intercalate parts

def describe (w : Workload) : Except Fault String := do
  let bounds ← w.boundsText
  let stride ← shown w.stride.text?
  let dilation ← shown w.dilation.text?
  return s!"ConvWorkload({bounds}, stride={stride}, dilation={dilation})"

def summary (w : Workload) : Except Fault String := do
  let name ← shown w.name.text?
  let path ← shown w.path.text?
  let bounds ← w.boundsText
  let stride ← shown w.stride.text?
  let dilation ← shown w.dilation.text?
  let macs ← shown (Text.grouped? w.macs)
  return "\n".intercalate
    [s!"ConvWorkload: {name} ({path})", s!"  Dimensions: {bounds}",
      s!"  Stride: {stride}, Dilation: {dilation}", s!"  MACs: {macs}"]

def boundValues (w : Workload) : List Value := w.bounds.toList.map fun (n : Nat) => .int n

end Workload

end LoopTiling
