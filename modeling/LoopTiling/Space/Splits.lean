import LoopTiling.LevelTable
import LoopTiling.Radix.Mixed

/-!
# The space of spatial splits

A spatial level unrolls its loops on two axes: the first ones of its order on X and the others on Y.
A member gives each spatial level the number of dimensions on X. It is fixed by the user, or any
number from the unit factors of the level up to all dimensions, named by one digit of the index.
-/
namespace LoopTiling

/-- How the split of a level is chosen. -/
inductive SplitRule
  /-- The user gives it. -/
  | fixed (split : Numeral)
  /-- It is free from the number of unit factors on. -/
  | free (unit : Numeral)
deriving DecidableEq

namespace SplitRule

def size : SplitRule → Nat
  | fixed _ => 1
  | free unit => (Dim.count + 1 - unit.toInt).toNat

end SplitRule

/-- The space of spatial splits; a level without a rule is temporal. -/
structure SplitSpace where
  levelCount : Numeral := .plain 0
  rules : LevelTable SplitRule := []

namespace SplitSpace

/-- The space of the given number of levels, all temporal. -/
def ofLevelCount (levelCount : Value) : Except Fault SplitSpace := do
  return ⟨← checkLevelCount levelCount, []⟩

/-- A number of dimensions, or a fault for anything else. -/
def checkDimCount (fault : Fault) (v : Value) : Except Fault Numeral :=
  match v.numeral? with
  | some n => if n.toInt < 0 ∨ Dim.count < n.toInt then .error fault else .ok n
  | none => .error fault

/-- Makes a level spatial and leaves its split free. -/
def setFree (s : SplitSpace) (level unit : Value) : Except Fault SplitSpace := do
  let l ← checkLevel s.levelCount level
  let u ← checkDimCount (.unitRange level unit) unit
  return { s with rules := s.rules.set l (.free u) }

/-- Makes a level spatial and fixes its split. -/
def setFixed (s : SplitSpace) (level split : Value) : Except Fault SplitSpace := do
  let l ← checkLevel s.levelCount level
  let n ← checkDimCount (.splitRange level split) split
  return { s with rules := s.rules.set l (.fixed n) }

def size (s : SplitSpace) : Nat := Radix.volume (s.rules.map fun e => e.2.size)

/-- The splits at a place. A level with a fixed split takes no digit. -/
def splitsAt : LevelTable SplitRule → (place : Nat) → LevelTable Numeral
  | [], _ => []
  | (l, .fixed split) :: rest, place => (l, split) :: splitsAt rest place
  | (l, rule@(.free unit)) :: rest, place =>
    (l, .plain (unit.toInt + (place % rule.size : Nat))) :: splitsAt rest (place / rule.size)

/-- The splits that an index names. -/
def decode (s : SplitSpace) (index : Value) : Except Fault (LevelTable Numeral) :=
  splitsAt s.rules <$> index.placeIn "spatial split" s.size

end SplitSpace

end LoopTiling
