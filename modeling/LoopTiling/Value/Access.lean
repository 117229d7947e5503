import LoopTiling.Value.Order

/-!
# Taking values apart

The parts of a value that readers ask for: the items of a collection, the entries of a map, the
value under a key or at a place, a whole number from what is written as one. Each refusal is a fault
of the value itself.
-/
namespace LoopTiling.Value

def entries : Value → Except Fault (List (Value × Value))
  | map es => .ok es
  | _ => .error (.unsupported .attribute)

/-- The items that a value lists: of a text its characters, of a map its keys. -/
def items : Value → Except Fault (List Value)
  | list vs => .ok vs
  | tuple vs => .ok vs
  | text s => .ok (s.toList.map fun c => text (String.singleton c))
  | map es => .ok (es.map Prod.fst)
  | _ => .error (.unsupported .type)

def length (v : Value) : Except Fault Nat := List.length <$> v.items

mutual

def isKey : Value → Bool
  | list _ => false
  | map _ => false
  | tuple vs => areKeys vs
  | _ => true

def areKeys : List Value → Bool
  | [] => true
  | v :: vs => v.isKey && areKeys vs

end

/-- What is under a key that any value may be tried as. -/
def lookup (key : Value) (es : List (Value × Value)) : Except Fault (Option Value) :=
  if key.isKey then .ok (find? key es) else .error (.unsupported .type)

def field? (name : String) (es : List (Value × Value)) : Option Value := find? (text name) es

def fieldD (name : String) (es : List (Value × Value)) (default : Value) : Value :=
  (field? name es).getD default

/-- Whether a text stands somewhere in another. -/
def occursIn (part : List Char) : List Char → Bool
  | [] => part.isEmpty
  | c :: rest => part.isPrefixOf (c :: rest) || occursIn part rest

/-- Whether a collection has a value: a map as a key, a list as an item, a text as a part. -/
def has (v key : Value) : Except Fault Bool :=
  match v, key with
  | map es, _ => Option.isSome <$> lookup key es
  | list vs, _ => anyEqual key vs
  | tuple vs, _ => anyEqual key vs
  | text s, text t => .ok (occursIn t.toList s.toList)
  | _, _ => .error (.unsupported .type)

def entryOf (v : Value) : Except Fault (Value × Value) := do
  match ← v.items with
  | [key, value] => if key.isKey then return (key, value) else throw (.unsupported .type)
  | _ => throw (.unsupported .value)

/-- The map that a value is or whose entries it lists. -/
def toMap : Value → Except Fault (List (Value × Value))
  | map es => .ok es
  | v => do
    let vs ← v.items
    return ofEntries (← vs.mapM entryOf)

/-- The whole part of a number, or the whole number that a text reads as. -/
def toWhole [Text.DigitLimit] : Value → Except Fault Int
  | text s =>
    match Text.readInt? s.toList with
    | some n => .ok n
    | none => .error (.unsupported .value)
  | float x =>
    match x with
    | .nan => .error (.unsupported .value)
    | .infinite _ => .error (.unsupported .overflow)
    | .finite .. =>
      match x.ratio? with
      | some (num, den) => .ok (num.tdiv den)
      | none => .error (.unsupported .value)
  | v =>
    match v.index? with
    | some n => .ok n
    | none => .error (.unsupported .type)

/-- The item at a place, counted from the end when the place is negative. -/
def itemAt (vs : List Value) (i : Int) : Except Fault Value :=
  let place := if i < 0 then i + vs.length else i
  match if place < 0 then none else vs[place.toNat]? with
  | some v => .ok v
  | none => .error (.unsupported .index)

/-- The part of a value that a key names: what a map has under it, or the item or character at its
place. A word has no places. -/
def part (v key : Value) : Except Fault Value :=
  match v with
  | map es => do
    match ← lookup key es with
    | some w => return w
    | none => throw (.unsupported .key)
  | word _ => .error (.unsupported .index)
  | list _ | tuple _ | text _ => do
    match key.index? with
    | some i => itemAt (← v.items) i
    | none => throw (.unsupported .type)
  | _ => .error (.unsupported .type)

/-- The dimension that a value names: a dimension itself, the whole number of its place, or its
letter. -/
def asDim (v : Value) : Except Fault Dim :=
  match v with
  | dim d => .ok d
  | int n =>
    match Dim.ofIndex? n with
    | some d => .ok d
    | none => .error (.unknownPlace v)
  | text s =>
    match Dim.ofName? s with
    | some d => .ok d
    | none => .error (.unknownName v)
  | _ => .error (.unknownName v)

def asDims (v : Value) : Except Fault (List Dim) := do (← v.items).mapM asDim

/-- The number of items before a cut, which counts from the end when it is negative. -/
def cutPlace (length : Nat) (cut : Int) : Nat :=
  if cut < 0 then (length + cut).toNat else min cut.toNat length

@[simp] theorem asDim_dim (d : Dim) : (dim d).asDim = .ok d := rfl

@[simp] theorem asDim_name (d : Dim) : (text d.name).asDim = .ok d := by
  simp [asDim, Dim.ofName?_name]

end LoopTiling.Value
