import LoopTiling.Decimal.Count
import LoopTiling.Value.Number

/-!
# Counts of any value

The text of a count where the count and the number of its places are configuration values. The
places are read only where the count is large enough to need them.
-/
namespace LoopTiling.Value

variable [Text.DigitLimit]

/-- The most places that a number may be written with. -/
def maxPlaces : Nat := 2147483647

/-- The value of decimal digits, if there are any and nothing else. -/
def digitsValue? : List Char → Option Nat
  | [] => none
  | c :: rest =>
    (c :: rest).foldlM (fun n d => (Text.digitValue? d).map fun digit => 10 * n + digit) 0

/-- A number of places: any value whose text is decimal digits. -/
def places (v : Value) : Except Fault Nat :=
  match v.text?.bind fun s => digitsValue? s.toList with
  | some n => if n ≤ maxPlaces then .ok n else .error (.unsupported .value)
  | none => .error (.unsupported .value)

def intCountText (n : Int) (places : Value) : Except Fault String := do
  if n.natAbs < Decimal.exactBelow || !Text.isShort n then shown (Text.grouped? n)
  else shown (Decimal.countText? (← places.places) n)

/-- The text of a count. A dimension is no count, unless it is shown by name. The least word is its
own negation, and not large. -/
def countText (v places : Value) : Except Fault String :=
  match v with
  | .dim _ => .error (.unsupported .value)
  | .float x => do
    if Decimal.isLarge x then return Decimal.floatCountText (← places.places) x
    else return x.groupedText
  | .word w => do
    if w.toInt.natAbs < Decimal.exactBelow || w = Int64.minValue then
      shown (Text.grouped? w.toInt)
    else return Decimal.wordCountText (← places.places) w
  | _ =>
    match v.index? with
    | some n => intCountText n places
    | none => .error (.unsupported .type)

end LoopTiling.Value
