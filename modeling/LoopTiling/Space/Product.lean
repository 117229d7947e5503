import LoopTiling.State.Counter
import LoopTiling.State.Factors
import LoopTiling.State.Orders
import LoopTiling.State.Splits

/-!
# Products of spaces

Every space has a size and a member for each index below it. A product takes the sizes of its
members once, when it is built, as the radices of its index; the first member is least significant.
-/
namespace LoopTiling

inductive Space
  | counter (c : CounterState)
  | factors (s : FactorState)
  | orders (s : OrderState)
  | splits (s : SplitState)
  | product (members : List Space) (sizes : List Nat)
deriving Inhabited

inductive Member
  | digits (ds : List Nat)
  | factors (rows : PerDim (List Nat))
  | orders (rows : List (List Dim))
  | splits (table : LevelTable Numeral)
  | tuple (parts : List Member)

namespace Member

def dimMap (values : PerDim Value) : Value := .map (Dim.all.map fun d => (.dim d, values.get d))

def factorTuple (row : List Nat) : Value := .tuple (row.map fun (f : Nat) => .int f)

mutual

def toValue : Member → Value
  | digits ds => .list (ds.map fun (d : Nat) => .int d)
  | factors rows => dimMap (rows.map factorTuple)
  | orders rows => .list (rows.map fun ds => .list (ds.map .dim))
  | splits table => .map (table.map fun (l, split) => (l.toValue, split.toValue))
  | tuple parts => .tuple (toValues parts)

def toValues : List Member → List Value
  | [] => []
  | m :: ms => m.toValue :: toValues ms

end

end Member

namespace Space

variable [Text.DigitLimit]

def size : Space → Except Fault Nat
  | counter c => .ok c.size
  | factors s => .ok s.size
  | orders s => s.size
  | splits s => .ok s.size
  | product _ sizes => .ok (Radix.volume sizes)

/-- The product of spaces, none of which may be empty. -/
def ofMembers (members : List Space) : Except Fault Space := do
  let axes ← Counter.ofSizes (← members.mapM size)
  return product members axes.radices

def split (sizes : List Nat) (index : Value) : Except Fault (List Nat) :=
  Radix.digits sizes <$> index.placeIn "product space" (Radix.volume sizes)

mutual

/-- The member that an index names. -/
def decode : Space → Value → Except Fault Member
  | counter c, index => .digits <$> c.decode index
  | factors s, index => .factors <$> s.decode index
  | orders s, index => .orders <$> s.decode index
  | splits s, index => .splits <$> s.decode index
  | product members sizes, index => do
    return .tuple (← decodeAll members (← split sizes index))

def decodeAll : List Space → List Nat → Except Fault (List Member)
  | space :: spaces, i :: is => do
    let m ← space.decode (.int i)
    return m :: (← decodeAll spaces is)
  | _, _ => .ok []

end

end Space

end LoopTiling
