import LoopTiling.Value.Number

/-!
# Products of values

A product starts at one and takes factors one by one. Numbers are multiplied in their form; a text
or a list is repeated as often as a whole number says, and not at all for a negative one.
-/
namespace LoopTiling

/-- A product of values. -/
inductive Product
  | number (n : Number)
  /-- A text or a list that is a factor, repeated. -/
  | sequence (v : Value)
deriving Inhabited

namespace Product

def one : Product := .number (.int 1)

def toValue : Product → Value
  | number n => n.toValue
  | sequence v => v

/-- The most bytes that a repeated text or list may take. -/
def maxBytes : Nat := Decimal.twoTo 36

/-- How often a whole number of any form repeats a text or a list; a number of another form does
not. The number must fit a word. -/
def repetitions (n : Number) : Except Fault Nat :=
  match n with
  | .int k => do
    let w ← Number.toWord k
    return w.toInt.toNat
  | .word w => .ok w.toInt.toNat
  | _ => .error (.unsupported .type)

def checkRoom (itemBytes length times : Nat) (beyondWord : FaultKind) : Except Fault Unit :=
  if Number.wordLimit ≤ length * times then .error (.unsupported beyondWord)
  else if maxBytes < itemBytes * length * times then .error (.unsupported .memory)
  else .ok ()

def repeated (v : Value) (n : Number) : Except Fault Value := do
  match v with
  | .text s => do
    let times ← repetitions n
    checkRoom 1 s.length times .overflow
    return .text (if s.isEmpty then s else String.join (List.replicate times s))
  | .list vs => do
    let times ← repetitions n
    checkRoom 8 vs.length times .memory
    return .list (if vs.isEmpty then [] else (List.replicate times vs).flatten)
  | .tuple vs => do
    let times ← repetitions n
    checkRoom 8 vs.length times .memory
    return .tuple (if vs.isEmpty then [] else (List.replicate times vs).flatten)
  | _ => throw (.unsupported .type)

/-- A product with one more factor. -/
def times (p : Product) (factor : Value) : Except Fault Product :=
  match p, factor.number? with
  | number n, some m => number <$> n.mul m
  | number n, none => sequence <$> repeated factor n
  | sequence v, some m => sequence <$> repeated v m
  | sequence _, none => .error (.unsupported .type)

/-- Whether a product is a given number. A real is compared with the number as a floating number,
which must not be too large. -/
def isNumber (p : Product) (n : Int) : Except Fault Bool :=
  match p with
  | number (.real x) => do return x.compare? (← Number.toFloat n) == some .eq
  | number m => .ok (m.equal (.int n))
  | sequence _ => .ok false

end Product

end LoopTiling
