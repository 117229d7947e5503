import LoopTiling.Value.Number
import LoopTiling.Value.Same

/-!
# Equality and order of values

Numbers are equal and ordered as numbers, texts by their characters, lists and tuples by the first
items that differ. Equality is defined between all values, order only within a kind. A word is set
against the whole of a list: the list is taken as a block of cells, and the outcome is that of its
only cell. A block with more cells than one, or with none, has no outcome, and neither has a list that
is no block because its items differ in shape.
-/
namespace LoopTiling.Value

mutual

/-- The extents of nested lists, outermost first, if the items at each depth have the same
extents. -/
def extents? : Value → Option (List Nat)
  | list vs => (commonExtents? vs).map (vs.length :: ·)
  | tuple vs => (commonExtents? vs).map (vs.length :: ·)
  | _ => some []

def commonExtents? : List Value → Option (List Nat)
  | [] => some []
  | [v] => v.extents?
  | v :: w :: vs => do
    let first ← v.extents?
    if (← commonExtents? (w :: vs)) = first then some first else none

end

mutual

/-- The cells of nested lists in order; what is no list is one cell. -/
def cells : Value → List Value
  | list vs => cellsOf vs
  | tuple vs => cellsOf vs
  | v => [v]

def cellsOf : List Value → List Value
  | [] => []
  | v :: vs => v.cells ++ cellsOf vs

end

/-- The only cell of a block. -/
def onlyCell (v : Value) : Except Fault Value :=
  match v.extents?, v.cells with
  | some _, [cell] => .ok cell
  | _, _ => .error (.unsupported .value)

/-- Whether a cell is held as it is, so that its block is compared cell by cell. -/
def isBoxed : Value → Bool
  | null => true
  | map _ => true
  | int n => n < -Number.wordLimit || 2 * Number.wordLimit ≤ n
  | _ => false

def isText : Value → Bool
  | text _ => true
  | _ => false

/-- The fault of a block that has no order with words, if it is for its cells. -/
def orderFault? (cells : List Value) : Option FaultKind :=
  let boxed := cells.any isBoxed
  if cells.any (fun v => v.number?.isNone && !v.isText) || boxed && cells.any isText then some .type
  else if cells.any isText then some .wordOrder
  else none

/-- What a test gives for the number in the only cell of a block. -/
def testCell (test : Number → Bool) (v : Value) : Except Fault Bool :=
  if v.extents?.isNone then .error (.unsupported .value)
  else
    match orderFault? v.cells with
    | some kind => .error (.unsupported kind)
    | none => do
      match (← v.onlyCell).number? with
      | some n => return test n
      | none => throw (.unsupported .type)

/-- Whether two values are equal as numbers or texts; other values are equal only to null. -/
def equalScalars (v w : Value) : Bool :=
  match v, w with
  | null, null => true
  | text s, text t => s == t
  | _, _ =>
    match v.number?, w.number? with
    | some a, some b => a.equal b
    | _, _ => false

mutual

def equal (v w : Value) : Except Fault Bool :=
  match v, w with
  | list vs, list ws => if vs.length = ws.length then equalItems vs ws else .ok false
  | tuple vs, tuple ws => if vs.length = ws.length then equalItems vs ws else .ok false
  | map es, map fs => if es.length = fs.length then equalEntries es fs else .ok false
  | word _, list _ => equalScalars v <$> w.onlyCell
  | word _, tuple _ => equalScalars v <$> w.onlyCell
  | list _, word _ => equalScalars w <$> v.onlyCell
  | tuple _, word _ => equalScalars w <$> v.onlyCell
  | _, _ => .ok (equalScalars v w)

def equalItems : List Value → List Value → Except Fault Bool
  | v :: vs, w :: ws => do if ← v.equal w then equalItems vs ws else return false
  | _, _ => .ok true

/-- Whether a map has an equal value for the key of every entry. -/
def equalEntries : List (Value × Value) → List (Value × Value) → Except Fault Bool
  | [], _ => .ok true
  | (k, v) :: es, fs =>
    match find? k fs with
    | some w => do if ← v.equal w then equalEntries es fs else return false
    | none => .ok false

end

def anyEqual (v : Value) : List Value → Except Fault Bool
  | [] => .ok false
  | w :: ws => do if ← w.equal v then return true else anyEqual v ws

def textLess : List Char → List Char → Bool
  | [], [] => false
  | [], _ :: _ => true
  | _ :: _, [] => false
  | c :: s, d :: t => if c = d then textLess s t else c.toNat < d.toNat

/-- Whether one value comes before another that is no list beside it. -/
def lessScalars (v w : Value) : Except Fault Bool :=
  match v, w with
  | text s, text t => .ok (textLess s.toList t.toList)
  | word _, text _ => .error (.unsupported .wordOrder)
  | text _, word _ => .error (.unsupported .wordOrder)
  | word x, list _ => w.testCell fun n => (Number.word x).less n
  | word x, tuple _ => w.testCell fun n => (Number.word x).less n
  | list _, word y => v.testCell fun n => n.less (.word y)
  | tuple _, word y => v.testCell fun n => n.less (.word y)
  | _, _ => do return (← v.asNumber).less (← w.asNumber)

mutual

def less (v w : Value) : Except Fault Bool :=
  match v, w with
  | list vs, list ws => lessItems vs ws
  | tuple vs, tuple ws => lessItems vs ws
  | _, _ => lessScalars v w

/-- Whether one list comes before another: at the first items that differ, or by being shorter. -/
def lessItems : List Value → List Value → Except Fault Bool
  | [], ws => .ok (!ws.isEmpty)
  | _ :: _, [] => .ok false
  | v :: vs, w :: ws => do if ← v.equal w then lessItems vs ws else v.less w

end

end LoopTiling.Value
