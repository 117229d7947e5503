import LoopTiling.LevelTable
import LoopTiling.Radix.Mixed
import LoopTiling.Radix.Factorial

/-!
# The space of loop orders

A member gives each level an order of the seven dimensions, innermost first. The order of a level
starts with dimensions that never move; the free ones follow in any arrangement, which is named by
one digit of the index. Levels take their digits from level zero upward.
-/
namespace LoopTiling

/-- What is fixed and what is free in the loop order of a level. -/
structure OrderPattern where
  /-- The dimensions at the start, in their order. -/
  baked : List Dim
  /-- The dimensions that follow in any order. -/
  free : List Dim
deriving DecidableEq, Inhabited

namespace OrderPattern

/-- The pattern that starts with the pruned dimensions and then those the user puts in front. -/
def ofLead (pruned lead : List Dim) : OrderPattern :=
  let baked := pruned ++ lead.filter (· ∉ pruned)
  ⟨baked, Dim.all.filter (· ∉ baked)⟩

def size (p : OrderPattern) : Nat := Radix.factorial p.free.length

/-- The order that a rank names. -/
def orderAt (p : OrderPattern) (rank : Nat) : List Dim := p.baked ++ Radix.unrank p.free rank

end OrderPattern

structure OrderSpace where
  levelCount : Numeral := .plain 0
  patterns : LevelTable OrderPattern := []

namespace OrderSpace

/-- The space of the given number of levels, none of them set up. -/
def ofLevelCount (levelCount : Value) : Except Fault OrderSpace := do
  return ⟨← checkLevelCount levelCount, []⟩

/-- Sets up a level with the dimensions its orders start with. -/
def setLevel (s : OrderSpace) (level : Value) (lead pruned : List Dim) :
    Except Fault OrderSpace := do
  let l ← checkLevel s.levelCount level
  if ¬ pruned.Nodup then throw (.prunedTwice level pruned)
  if ¬ lead.Nodup then throw (.orderedTwice level lead)
  return { s with patterns := s.patterns.set l (.ofLead pruned lead) }

/-- The patterns of the levels from `level` up to `count`, refusing the first that is missing. -/
def patternsFrom (count : Int) : (level : Int) → LevelTable OrderPattern →
    Except Fault (List OrderPattern)
  | level, [] => if level < count then .error (.orderMissing (.int level)) else .ok []
  | level, (l, p) :: rest =>
    if level < count then
      if l.toInt = level then do return p :: (← patternsFrom count (level + 1) rest)
      else .error (.orderMissing (.int level))
    else .ok []

def allPatterns (s : OrderSpace) : Except Fault (List OrderPattern) :=
  patternsFrom s.levelCount.toInt 0 s.patterns

def volume (patterns : List OrderPattern) : Nat := Radix.volume (patterns.map OrderPattern.size)

def size (s : OrderSpace) : Except Fault Nat := volume <$> s.allPatterns

/-- The orders at a place. A level with nothing free takes no digit. -/
def ordersAt : List OrderPattern → (place : Nat) → List (List Dim)
  | [], _ => []
  | p :: ps, place =>
    if p.free.isEmpty then p.baked :: ordersAt ps place
    else p.orderAt (place % p.size) :: ordersAt ps (place / p.size)

/-- The orders that an index names. -/
def decode (s : OrderSpace) (index : Value) : Except Fault (List (List Dim)) := do
  let patterns ← s.allPatterns
  return ordersAt patterns (← index.placeIn "permutation" (volume patterns))

end OrderSpace

end LoopTiling
