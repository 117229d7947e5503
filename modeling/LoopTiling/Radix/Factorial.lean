import LoopTiling.Value.Access

/-!
# Ranks of arrangements

A rank below `n!` names one arrangement of `n` items: its digit to the radix `n` picks the first
item, its digit to the radix `n - 1` the next of those left, and so on. Rank zero is the order in
which the items are given.
-/
namespace LoopTiling.Radix

variable {α : Type}

/-- The number of arrangements of `n` items. -/
def factorial : Nat → Nat
  | 0 => 1
  | n + 1 => (n + 1) * factorial n

def unrankFrom : Nat → List α → Int → List α
  | 0, _, _ => []
  | n + 1, items, rank =>
    let pick := (rank % items.length).toNat
    items[pick]?.toList ++ unrankFrom n (items.eraseIdx pick) (rank / items.length)

/-- The arrangement of the items that a rank names; ranks outside the range count modulo the number
of arrangements. -/
def unrank (items : List α) (rank : Int) : List α := unrankFrom items.length items rank

theorem length_unrankFrom (items : List α) (rank : Int) :
    (unrankFrom items.length items rank).length = items.length := by
  generalize h : items.length = n
  induction n generalizing items rank with
  | zero => rfl
  | succ n ih =>
    have hpos : (0 : Int) < items.length := by omega
    have hlt := Int.emod_lt_of_pos rank hpos
    have hpick : (rank % (items.length : Int)).toNat < items.length := by omega
    have herase : (items.eraseIdx (rank % (items.length : Int)).toNat).length = n := by
      rw [List.length_eraseIdx_of_lt hpick, h, Nat.add_sub_cancel]
    simp only [unrankFrom, List.getElem?_eq_getElem hpick, Option.toList_some, List.length_append,
      List.length_cons, List.length_nil, ih _ _ herase]
    omega

@[simp] theorem length_unrank (items : List α) (rank : Int) :
    (unrank items rank).length = items.length := length_unrankFrom items rank

/-- The rank of an arrangement of the items, or the first of its items that has no place among those
left. -/
def rankOf (placeOf : α → List α → Option Nat) : List α → List α → Except α Nat
  | _, [] => .ok 0
  | items, x :: rest =>
    match placeOf x items with
    | some pick => do
      let higher ← rankOf placeOf (items.eraseIdx pick) rest
      return pick + items.length * higher
    | none => .error x

/-- The place of the first value that is equal to a given one, if the comparisons up to it have an
outcome. -/
def placeOf (v : Value) : List Value → Option Nat
  | [] => none
  | w :: ws =>
    match w.equal v with
    | .ok true => some 0
    | .ok false => (placeOf v ws).map (· + 1)
    | .error _ => none

/-- Arranges the items before a cut and leaves those after it. -/
def permute (items : List α) (rank : Int) (cut : Int) : List α :=
  let place := Value.cutPlace items.length cut
  unrank (items.take place) rank ++ items.drop place

/-- The factorial of a value, which must be below `2 ^ 63`. -/
def factorialOf (n : Value) : Except Fault Nat := do
  if (← n.asNumber).less (.int 0) then throw (.negativeFactorial n)
  match n.index? with
  | some i =>
    if i < Number.wordLimit then return factorial i.toNat else throw (.unsupported .overflow)
  | none => throw (.unsupported .type)

/-- The arrangement of items that any value as a rank names. Where there are no items the rank is
not read. -/
def unrankValue (items : List Value) (rank : Value) : Except Fault (List Value) :=
  if items.isEmpty then .ok []
  else
    match rank.index? with
    | some i => .ok (unrank items i)
    | none => .error (.unsupported .type)

def rankValues (items ordering : List Value) : Except Fault Nat :=
  if ordering.length ≠ items.length then .error (.orderingLength ordering.length items.length)
  else
    match rankOf placeOf items ordering with
    | .ok rank => .ok rank
    | .error item => .error (.notRearrangement item items)

/-- Arranges the items of a list before a cut, all of them if there is none. A word has no items to
cut. -/
def permuteValues (items rank cut : Value) : Except Fault (List Value) :=
  match items with
  | .word _ => .error (.unsupported (if cut.isNull then .type else .index))
  | .list items => do
    let place ←
      match cut with
      | .null => pure items.length
      | _ =>
        match cut.index? with
        | some i => pure (Value.cutPlace items.length i)
        | none => throw (.unsupported .type)
    return (← unrankValue (items.take place) rank) ++ items.drop place
  | _ => .error (.unsupported .type)

end LoopTiling.Radix
