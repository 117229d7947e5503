import LoopTiling.Value.Access

/-!
# Tiling levels

A tiling level of an accelerator has a name, is temporal or spatial, and may pin tile factors, the
first dimensions of its loop order and, when it is spatial, its split.
-/
namespace LoopTiling

/-- Sets what an association holds for a key; a key that is there keeps its place. -/
def setKey {κ α : Type} [DecidableEq κ] (key : κ) (a : α) : List (κ × α) → List (κ × α)
  | [] => [(key, a)]
  | (k, b) :: t => if k = key then (k, a) :: t else (k, b) :: setKey key a t

structure Level where
  name : Value
  /-- Counts as true where the loops are unrolled across instances. -/
  spatial : Value := .flag false
  factors : List (Dim × Numeral) := []
  /-- The first dimensions of the loop order, innermost first. -/
  lead : List Dim := []
  /-- The number of dimensions on the X axis, if it is pinned. -/
  split : Option Numeral := none

namespace Level

variable [Text.DigitLimit]

def isSpatial (l : Level) : Bool := l.spatial.truthy

/-- Entries under the dimensions that their keys name, a later one replacing the value of an
earlier one. -/
def dimFactors (es : List (Value × Value)) : Except Fault (List (Dim × Value)) := do
  let named ← es.mapM fun e => do return (← e.1.asDim, e.2)
  return named.foldl (fun t e => setKey e.1 e.2 t) []

/-- A pinned factor: a positive numeral. -/
def checkFactor (name : Value) (e : Dim × Value) : Except Fault (Dim × Numeral) :=
  match e.2.numeral? with
  | some n => if n.toInt < 1 then .error (.levelFactor name e.1 e.2) else .ok (e.1, n)
  | none => .error (.levelFactor name e.1 e.2)

/-- A pinned split, which needs a spatial level. -/
def checkSplit (name spatial split : Value) : Except Fault (Option Numeral) :=
  if split.isNull then .ok none
  else if !spatial.truthy then .error (.temporalSplit name)
  else
    match split.numeral? with
    | some n =>
      if n.toInt < 0 ∨ Dim.count < n.toInt then .error (.levelSplit name split) else .ok (some n)
    | none => .error (.levelSplit name split)

def ofParts (name spatial factors lead split : Value) : Except Fault Level := do
  let named ← dimFactors (← factors.entries)
  let factors ← named.mapM (checkFactor name)
  let lead ← lead.asDims
  if ¬ lead.Nodup then throw (.levelOrderTwice name lead)
  return ⟨name, spatial, factors, lead, ← checkSplit name spatial split⟩

def partNames : List String := ["name", "spatial", "factors", "permutation", "split"]

def ofArguments (arguments : Value) : Except Fault Level := do
  let es ← arguments.entries
  if !es.all (fun e => partNames.any fun n => (Value.text n).same e.1) then
    throw (.unsupported .type)
  match Value.field? "name" es with
  | none => throw (.unsupported .type)
  | some name =>
    ofParts name (Value.fieldD "spatial" es (.flag false)) (Value.fieldD "factors" es (.map []))
      (Value.fieldD "permutation" es (.list [])) (Value.fieldD "split" es .null)

/-- A value, or a default for one that counts as false. -/
def orElse (v default : Value) : Value := if v.truthy then v else default

def ofConfig (config : Value) : Except Fault Level := do
  let es ← config.entries
  let factors ← (orElse (Value.fieldD "factors" es .null) (.map [])).toMap
  let lead ← (orElse (Value.fieldD "permutation" es .null) (.list [])).items
  ofParts (Value.fieldD "name" es (.text "Unknown"))
    (.flag (Value.fieldD "spatial" es (.flag false)).truthy)
    (.map factors) (.list lead) (Value.fieldD "split" es .null)

def factorMap (l : Level) : Value :=
  .map (l.factors.map fun (d, f) => (.text d.name, f.toValue))

/-- The configuration of a level; parts that pin nothing are left out. -/
def toConfig (l : Level) : Value :=
  .map ([(.text "name", l.name), (.text "spatial", l.spatial)] ++
    (if l.factors.isEmpty then [] else [(.text "factors", l.factorMap)]) ++
    (if l.lead.isEmpty then []
      else [(.text "permutation", .list (l.lead.map fun d => .text d.name))]) ++
    match l.split with
    | some split => [(.text "split", split.toValue)]
    | none => [])

def factor? (l : Level) (d : Dim) : Option Numeral := l.factors.lookup d

def joinNames (ds : List Dim) : String := String.join (ds.map Dim.name)

def kindText (isSpatial : Bool) : String := if isSpatial then "spatial" else "temporal"

/-- The line that sums up the level at a place. -/
def summaryLine (place : Nat) (l : Level) : Except Fault String := do
  let name ← shown l.name.text?
  let factors ← shown l.factorMap.quoted?
  let split ←
    match l.split with
    | some split => do
      let s ← shown split.text?
      pure s!" split={s}"
    | none => pure ""
  return s!"  [L{place}] {name} ({kindText l.isSpatial})" ++
    (if l.factors.isEmpty then "" else s!" factors={factors}") ++
    (if l.lead.isEmpty then "" else s!" prefix={joinNames l.lead}") ++ split

end Level

end LoopTiling
