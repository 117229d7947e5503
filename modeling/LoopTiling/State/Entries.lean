import LoopTiling.LevelTable
import LoopTiling.Value.Same

/-!
# Entries by level in the order of insertion

What an object remembers of its levels. A level that is there keeps its place and how it was written
first when it gets a new value; a new one goes to the end.
-/
namespace LoopTiling

/-- Entries by level, in the order in which the levels came. -/
abbrev Entries (α : Type) := List (Numeral × α)

namespace Entries

variable {α : Type}

def put (level : Numeral) (a : α) : Entries α → Entries α
  | [] => [(level, a)]
  | (l, b) :: t => if l.toInt = level.toInt then (l, a) :: t else (l, b) :: put level a t

def drop (level : Numeral) (t : Entries α) : Entries α := t.filter fun e => e.1.toInt ≠ level.toInt

/-- What is there for a level. -/
def at? (level : Int) (t : Entries α) : Option α := LevelTable.find? level t

/-- What is there for a level that any value may be tried as. -/
def atValue? (level : Value) (t : Entries α) : Option α :=
  (List.find? (fun e => level.same (.int e.1.toInt)) t).map Prod.snd

/-- The entries in ascending order of their levels. -/
def ascending (t : Entries α) : LevelTable α := t.mergeSort fun e f => e.1.toInt ≤ f.1.toInt

/-- What is there for a level, which must be there. -/
def get (level : Int) (t : Entries α) : Except Fault α :=
  match t.at? level with
  | some a => .ok a
  | none => .error (.unsupported .key)

theorem at?_cons (e : Numeral × α) (t : Entries α) (l : Int) :
    at? l (e :: t) = if e.1.toInt = l then some e.2 else at? l t := rfl

theorem at?_put (level : Numeral) (a : α) (t : Entries α) (l : Int) :
    (t.put level a).at? l = if level.toInt = l then some a else t.at? l := by
  induction t with
  | nil => rfl
  | cons e t ih =>
    unfold put
    split
    · next h =>
      rw [at?_cons, at?_cons, h]
      split <;> rfl
    · next h =>
      rw [at?_cons, at?_cons, ih]
      by_cases hl : e.1.toInt = l
      · have hne : ¬ level.toInt = l := fun he => h (hl.trans he.symm)
        rw [if_pos hl, if_pos hl, if_neg hne]
      · rw [if_neg hl, if_neg hl]

theorem at?_drop (level : Numeral) (t : Entries α) (l : Int) :
    (t.drop level).at? l = if level.toInt = l then none else t.at? l := by
  induction t with
  | nil =>
    split <;> rfl
  | cons e t ih =>
    unfold drop at ih ⊢
    by_cases h : e.1.toInt = level.toInt
    · rw [List.filter_cons_of_neg (by simp [h]), ih, at?_cons, h]
      split <;> rfl
    · rw [List.filter_cons_of_pos (by simp [h]), at?_cons, at?_cons, ih]
      by_cases hl : e.1.toInt = l
      · have hne : ¬ level.toInt = l := fun he => h (hl.trans he.symm)
        rw [if_pos hl, if_pos hl, if_neg hne]
      · rw [if_neg hl, if_neg hl]

end Entries

end LoopTiling
