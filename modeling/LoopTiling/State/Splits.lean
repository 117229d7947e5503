import LoopTiling.Space.Reports
import LoopTiling.State.Entries
import LoopTiling.State.Update

/-!
# The state of a space of splits

A space of splits remembers four things of its spatial levels: whether the split is the user's,
the user's split, the number of unit factors where the split is free, and the number of splits. A
level has either a user's split or a number of unit factors; setting it up in one way forgets the
other.
-/
namespace LoopTiling

/-- How the split of a level is set up: free from a number of unit factors on, or fixed. -/
inductive SplitSetting
  | free (unit : Value)
  | fixed (split : Value)

structure SplitState where
  levelCount : Numeral := .plain 0
  /-- Whether the split of a spatial level is the user's. -/
  isFixed : Entries Bool := []
  userSplits : Entries Numeral := []
  unitFactors : Entries Numeral := []
  /-- The number of splits of each spatial level. -/
  sizes : Entries Nat := []
deriving Inhabited

namespace SplitState

variable [Text.DigitLimit]

def init (levelCount : Value) : Update SplitState Journal := do
  let count ← .check (checkLevelCount levelCount)
  modify fun s => { s with levelCount := count }
  modify fun s => { s with isFixed := [] }
  modify fun s => { s with userSplits := [] }
  modify fun s => { s with unitFactors := [] }
  modify fun s => { s with sizes := [] }
  return []

def setFree (level unit : Value) : Update SplitState Journal := do
  let l ← .check (checkLevel (← get).levelCount level)
  let u ← .check (SplitSpace.checkDimCount (.unitRange level unit) unit)
  modify fun s => { s with isFixed := s.isFixed.put l false }
  modify fun s => { s with userSplits := s.userSplits.drop l }
  modify fun s => { s with unitFactors := s.unitFactors.put l u }
  modify fun s => { s with sizes := s.sizes.put l (SplitRule.free u).size }
  .check ((SplitRule.free u).reported l)

def setFixed (level split : Value) : Update SplitState Journal := do
  let l ← .check (checkLevel (← get).levelCount level)
  let n ← .check (SplitSpace.checkDimCount (.splitRange level split) split)
  modify fun s => { s with isFixed := s.isFixed.put l true }
  modify fun s => { s with userSplits := s.userSplits.put l n }
  modify fun s => { s with unitFactors := s.unitFactors.drop l }
  modify fun s => { s with sizes := s.sizes.put l (SplitRule.fixed n).size }
  .check ((SplitRule.fixed n).reported l)

def size (s : SplitState) : Nat := Radix.volume (s.sizes.map Prod.snd)

/-- The splits of levels at a place. A level with a user's split takes no digit. -/
def splitsFrom (s : SplitState) :
    LevelTable Bool → (place : Nat) → Except Fault (LevelTable Numeral)
  | [], _ => .ok []
  | (l, true) :: rest, place => do
    let split ← s.userSplits.get l.toInt
    return (l, split) :: (← s.splitsFrom rest place)
  | (l, false) :: rest, place => do
    let size ← s.sizes.get l.toInt
    let unit ← s.unitFactors.get l.toInt
    return (l, .plain (unit.toInt + (place % size : Nat))) ::
      (← s.splitsFrom rest (place / size))

def decode (s : SplitState) (index : Value) : Except Fault (LevelTable Numeral) := do
  let place ← index.placeIn "spatial split" s.size
  s.splitsFrom s.isFixed.ascending place

/-- The spatial levels, ascending. -/
def levels (s : SplitState) : List Numeral := s.isFixed.ascending.map Prod.fst

def call : Call Value SplitSetting → Update SplitState Journal
  | .init levelCount => init levelCount
  | .level level (.free unit) => setFree level unit
  | .level level (.fixed split) => setFixed level split

end SplitState

end LoopTiling
