import LoopTiling.Space.Reports
import LoopTiling.State.Entries
import LoopTiling.State.Update

/-!
# The state of a space of orders

A space of orders remembers for each level that is set up what is fixed and what is free in its
orders, and beside it the number of orders. A level is set up in range only, and with different
dimensions at its start.
-/
namespace LoopTiling

/-- What the orders of a level start with: dimensions that are pruned and those that the user puts
in front, or all dimensions in canonical order. -/
inductive OrderSetting
  | lead (lead pruned : Value)
  | canonical

structure OrderState where
  levelCount : Numeral := .plain 0
  patterns : Entries OrderPattern := []
  /-- The number of orders of each level. -/
  sizes : Entries Nat := []
deriving Inhabited

namespace OrderState

variable [Text.DigitLimit]

def init (levelCount : Value) : Update OrderState Journal := do
  let count ← .check (checkLevelCount levelCount)
  modify fun s => { s with levelCount := count }
  modify fun s => { s with patterns := [] }
  modify fun s => { s with sizes := [] }
  return []

/-- The dimensions that a setting names: the pruned ones and those of the user. -/
def readSetting : OrderSetting → Except Fault (List Dim × List Dim)
  | .lead lead pruned => do
    let pruned ← pruned.asDims
    return (pruned, ← lead.asDims)
  | .canonical => .ok ([], Dim.all)

/-- What a call for a level asks for: the level, its pruned dimensions and those of the user. -/
def readLevel (levelCount : Numeral) (level : Value) (setting : OrderSetting) :
    Except Fault (Numeral × List Dim × List Dim) := do
  let l ← checkLevel levelCount level
  let (pruned, lead) ← readSetting setting
  if ¬ pruned.Nodup then throw (.prunedTwice level pruned)
  if ¬ lead.Nodup then throw (.orderedTwice level lead)
  return (l, pruned, lead)

def setLevel (level : Value) (setting : OrderSetting) : Update OrderState Journal := do
  let (l, pruned, lead) ← .check (readLevel (← get).levelCount level setting)
  let pattern := OrderPattern.ofLead pruned lead
  modify fun s => { s with patterns := s.patterns.put l pattern }
  modify fun s => { s with sizes := s.sizes.put l pattern.size }
  .check (pattern.reported l)

def patternAt (s : OrderState) (level : Int) : Except Fault OrderPattern :=
  match s.patterns.at? level with
  | some p => .ok p
  | none => .error (.orderMissing (.int level))

/-- The sizes of `count` levels from `level` on, refusing the first that is not set up. -/
def sizesFrom (s : OrderState) : (count : Nat) → (level : Int) → Except Fault (List Nat)
  | 0, _ => .ok []
  | count + 1, level => do
    let _ ← s.patternAt level
    let size ← s.sizes.get level
    return size :: (← s.sizesFrom count (level + 1))

def size (s : OrderState) : Except Fault Nat :=
  Radix.volume <$> s.sizesFrom s.levelCount.toInt.toNat 0

/-- The number of orders of a level. -/
def levelSize (s : OrderState) (level : Value) : Except Fault Nat :=
  if !level.isKey then .error (.unsupported .type)
  else
    match s.patterns.atValue? level, s.sizes.atValue? level with
    | some _, some size => .ok size
    | some _, none => .error (.unsupported .key)
    | none, _ => .error (.orderMissing level)

/-- The orders of `count` levels from `level` on at a place. A level with nothing free takes no
digit. -/
def ordersFrom (s : OrderState) :
    (count : Nat) → (level : Int) → (place : Nat) → Except Fault (List (List Dim))
  | 0, _, _ => .ok []
  | count + 1, level, place => do
    let p ← s.patternAt level
    if p.baked.length = Dim.count then
      return p.baked :: (← s.ordersFrom count (level + 1) place)
    else
      let size ← s.sizes.get level
      return p.orderAt (place % size) :: (← s.ordersFrom count (level + 1) (place / size))

def decode (s : OrderState) (index : Value) : Except Fault (List (List Dim)) := do
  let place ← index.placeIn "permutation" (← s.size)
  s.ordersFrom s.levelCount.toInt.toNat 0 place

def call : Call Value OrderSetting → Update OrderState Journal
  | .init levelCount => init levelCount
  | .level level setting => setLevel level setting

end OrderState

end LoopTiling
