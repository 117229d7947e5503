import LoopTiling.Decimal.Division
import LoopTiling.Fault

/-!
# Arithmetic on numbers of mixed form

An integer is exact and of any size. A word is a signed 64-bit number whose arithmetic is modulo
`2 ^ 64`; an integer that meets a word must fit one. A floating number turns an integer that it meets
into a floating number. A floating number that meets a word becomes a real, the floating form
of the words: it stays one, rounds the integers it is compared with, and has quotients by zero.
-/
namespace LoopTiling

/-- A number in one of the four forms. -/
inductive Number
  | int (n : Int)
  | word (w : Int64)
  | float (x : Binary64)
  /-- A floating number that has met a word. -/
  | real (x : Binary64)
deriving DecidableEq, Inhabited

namespace Number

def toValue : Number → Value
  | int n => .int n
  | word w => .word w
  | float x => .float x
  | real x => .float x

def ofNat (n : Nat) : Number := .int n

/-- The number of words that are at least zero. -/
def wordLimit : Nat := Decimal.twoTo 63

/-- An integer as a word, if it fits. -/
def toWord (n : Int) : Except Fault Int64 :=
  if -(wordLimit : Int) ≤ n ∧ n < wordLimit then .ok (Int64.ofInt n)
  else .error (.unsupported .overflow)

/-- An integer as a floating number, if it is not too large. -/
def toFloat (n : Int) : Except Fault Binary64 :=
  match Binary64.ofInt n with
  | .infinite _ => .error (.unsupported .overflow)
  | x => .ok x

def toBinary : Number → Except Fault Binary64
  | int n => toFloat n
  | word w => .ok (.ofInt w.toInt)
  | float x => .ok x
  | real x => .ok x

/-- Applies the operation of the form in which two numbers meet. -/
def meet {α : Type} (onInt : Int → Int → α) (onWord : Int64 → Int64 → α)
    (onFloat onReal : Binary64 → Binary64 → α) : Number → Number → Except Fault α
  | int a, int b => .ok (onInt a b)
  | int a, word b => return onWord (← toWord a) b
  | word a, int b => return onWord a (← toWord b)
  | word a, word b => .ok (onWord a b)
  | float a, float b => .ok (onFloat a b)
  | float a, int b => return onFloat a (← toFloat b)
  | int a, float b => return onFloat (← toFloat a) b
  | a, b => return onReal (← a.toBinary) (← b.toBinary)

def add (a b : Number) : Except Fault Number :=
  meet (fun x y => int (x + y)) (fun x y => word (x + y)) (fun x y => float (x.add y))
    (fun x y => real (x.add y)) a b

def mul (a b : Number) : Except Fault Number :=
  meet (fun x y => int (x * y)) (fun x y => word (x * y)) (fun x y => float (x.mul y))
    (fun x y => real (x.mul y)) a b

/-- The floor of a quotient of words and the remainder with the divisor's sign, both zero when the
divisor is. -/
def wordDivMod (a b : Int64) : Int64 × Int64 :=
  if b = 0 then (0, 0)
  else (Int64.ofInt (a.toInt.fdiv b.toInt), Int64.ofInt (a.toInt.fmod b.toInt))

/-- The floor of the quotient and the remainder, which has the divisor's sign. -/
def divMod (a b : Number) : Except Fault (Number × Number) := do
  let answer ← meet
    (fun x y =>
      if y = 0 then .error (.unsupported .zeroDivision)
      else .ok (int (x.fdiv y), int (x.fmod y)))
    (fun x y => .ok (word (wordDivMod x y).1, word (wordDivMod x y).2))
    (fun x y =>
      if y.isZero then .error (.unsupported .zeroDivision)
      else .ok (float (x.divMod y).1, float (x.divMod y).2))
    (fun x y => .ok (real (x.divMod y).1, real (x.divMod y).2)) a b
  answer

def nearest : Number → Binary64
  | int n => .ofInt n
  | word w => .ofInt w.toInt
  | float x => x
  | real x => x

/-- The comparison of two numbers, if there is one. Integers are compared with words and with
floating numbers by exact value; where a word or a real meets a floating form, both are floating
numbers first. -/
def compare? : Number → Number → Option Ordering
  | int m, int n => some (compare m n)
  | int m, word w => some (compare m w.toInt)
  | word v, int n => some (compare v.toInt n)
  | word v, word w => some (compare v.toInt w.toInt)
  | float x, int n => (x.compareInt? n).map Ordering.swap
  | int n, float y => y.compareInt? n
  | a, b => a.nearest.compare? b.nearest

def equal (a b : Number) : Bool := a.compare? b == some .eq

def less (a b : Number) : Bool := a.compare? b == some .lt

def nonneg (a : Number) : Bool := a.compare? (int 0) == some .gt || a.equal (int 0)

end Number

namespace Value

/-- The number that a value is, a truth value or a dimension counting as an integer. -/
def number? : Value → Option Number
  | float x => some (.float x)
  | word w => some (.word w)
  | v => v.index?.map Number.int

/-- The number that a value is, which must be one. -/
def asNumber (v : Value) : Except Fault Number :=
  match v.number? with
  | some n => .ok n
  | none => .error (.unsupported .type)

/-- The whole number that a value is; a truth value is none. -/
def asWhole (what : String) (v : Value) : Except Fault Int :=
  match v with
  | flag _ => .error (.notWhole what v)
  | _ =>
    match v.index? with
    | some n => .ok n
    | none => .error (.notWhole what v)

/-- The index that a value is, checked to lie between zero and `size`. -/
def checkIndex (what : String) (index size : Value) : Except Fault Int := do
  let i ← index.asWhole (what ++ " index")
  if i < 0 then throw (.indexRange what i size)
  if (Number.int i).less (← size.asNumber) then return i
  throw (.indexRange what i size)

/-- The place among `size` members that a value is. -/
def placeIn (what : String) (index : Value) (size : Nat) : Except Fault Nat :=
  Int.toNat <$> index.checkIndex what (.int size)

end Value

end LoopTiling
