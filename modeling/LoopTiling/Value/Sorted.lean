import LoopTiling.Value.Order

/-!
# Values in order

Sorting takes the run at the start that already rises, or falls, and puts each further value into
its place by halving. On values that are in a total order the result is the one ascending list in which
equal values keep their order; where a value has no place, such as what is not a number, it depends
on which comparisons are made.
-/
namespace LoopTiling.Value

variable {α : Type}

/-- Splits off the values that go on rising, or falling, from the last one of a run. -/
def goOn (key : α → Value) (falling : Bool) (last : α) : List α → Except Fault (List α × List α)
  | [] => .ok ([], [])
  | a :: rest => do
    if (← (key a).less (key last)) = falling then
      let (run, left) ← goOn key falling a rest
      return (a :: run, left)
    else return ([], a :: rest)

/-- The run at the start in ascending order, and what is left. -/
def firstRun (key : α → Value) : List α → Except Fault (List α × List α)
  | a :: b :: rest => do
    let falling ← (key b).less (key a)
    let (run, left) ← goOn key falling b rest
    let run := a :: b :: run
    return (if falling then run.reverse else run, left)
  | short => .ok (short, [])

/-- The place for a key between two places of a list in order, behind all that are not larger. -/
def placeFor (key : α → Value) (pivot : Value) (done : List α) :
    (fuel low high : Nat) → Except Fault Nat
  | 0, low, _ => .ok low
  | fuel + 1, low, high =>
    if high ≤ low then .ok low
    else
      let middle := low + (high - low) / 2
      match done[middle]? with
      | some a => do
        if ← pivot.less (key a) then placeFor key pivot done fuel low middle
        else placeFor key pivot done fuel (middle + 1) high
      | none => .ok low

def putInOrder (key : α → Value) (done : List α) (a : α) : Except Fault (List α) := do
  let place ← placeFor key (key a) done done.length 0 done.length
  return done.take place ++ a :: done.drop place

def sortedBy (key : α → Value) (items : List α) : Except Fault (List α) := do
  let (run, rest) ← firstRun key items
  rest.foldlM (putInOrder key) run

def sortedDown (key : α → Value) (items : List α) : Except Fault (List α) :=
  List.reverse <$> sortedBy key items.reverse

def sorted (vs : List Value) : Except Fault (List Value) := sortedBy id vs

end LoopTiling.Value
