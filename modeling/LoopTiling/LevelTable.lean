import LoopTiling.Fault

/-!
# Tables by level

What a space holds for some of its levels, in ascending order of the levels. Setting a level that
is there replaces what it holds and keeps how the level was written first.
-/
namespace LoopTiling

/-- Entries by level, ascending. -/
abbrev LevelTable (α : Type) := List (Numeral × α)

namespace LevelTable

variable {α : Type}

def set (level : Numeral) (a : α) : LevelTable α → LevelTable α
  | [] => [(level, a)]
  | (l, b) :: t =>
    if l.toInt = level.toInt then (l, a) :: t
    else if level.toInt < l.toInt then (level, a) :: (l, b) :: t
    else (l, b) :: set level a t

def find? (level : Int) : LevelTable α → Option α
  | [] => none
  | (l, a) :: t => if l.toInt = level then some a else find? level t

theorem find?_set_self (level : Numeral) (a : α) (t : LevelTable α) :
    find? level.toInt (set level a t) = some a := by
  induction t with
  | nil => simp [set, find?]
  | cons e t ih =>
    obtain ⟨l, b⟩ := e
    by_cases h : l.toInt = level.toInt
    · simp [set, find?, h]
    · by_cases h' : level.toInt < l.toInt
      · simp [set, find?, h, h']
      · simp [set, find?, h, h', ih]

theorem find?_set_ne {level : Numeral} {other : Int} (h : level.toInt ≠ other) (a : α)
    (t : LevelTable α) : find? other (set level a t) = find? other t := by
  induction t with
  | nil => simp [set, find?, h]
  | cons e t ih =>
    obtain ⟨l, b⟩ := e
    by_cases hl : l.toInt = level.toInt
    · simp [set, find?, hl, h]
    · by_cases h' : level.toInt < l.toInt
      · simp [set, find?, hl, h', h]
      · simp [set, find?, hl, h', ih]

end LevelTable

/-- The number of levels of a space: a numeral of at least zero. -/
def checkLevelCount (v : Value) : Except Fault Numeral :=
  match v.numeral? with
  | some n => if n.toInt < 0 then .error (.spaceLevelCount v) else .ok n
  | none => .error (.spaceLevelCount v)

/-- A level of a space: a numeral in range. -/
def checkLevel (levelCount : Numeral) (v : Value) : Except Fault Numeral :=
  match v.numeral? with
  | some n =>
    if n.toInt < 0 ∨ levelCount.toInt ≤ n.toInt then .error (.levelRange v levelCount) else .ok n
  | none => .error (.levelRange v levelCount)

end LoopTiling
