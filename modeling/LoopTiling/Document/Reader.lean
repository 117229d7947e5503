import LoopTiling.Decimal.Reading
import LoopTiling.Value.Same

/-!
# Reading documents in flow style

A document is one value written in the flow style: `null`, `true`, `false`, numbers, texts between
double quotes, lists between brackets and maps between braces. Maps keep the order of their keys;
a key that comes again replaces the value of the first.
-/
namespace LoopTiling.Document

def skipBlanks (s : List Char) : List Char :=
  s.dropWhile fun c => c = ' ' || c = '\n' || c = '\r' || c = '\t'

def hexValue? (c : Char) : Option Nat :=
  if c.isDigit then some (c.toNat - 48)
  else if 'a' ≤ c ∧ c ≤ 'f' then some (c.toNat - 87)
  else if 'A' ≤ c ∧ c ≤ 'F' then some (c.toNat - 55)
  else none

def hexUnit? (a b c d : Char) : Option Nat := do
  return 4096 * (← hexValue? a) + 256 * (← hexValue? b) + 16 * (← hexValue? c) + (← hexValue? d)

def escaped? : Char → Option Char
  | 'n' => some '\n'
  | 'r' => some '\r'
  | 't' => some '\t'
  | 'b' => some '\x08'
  | 'f' => some '\x0c'
  | '"' => some '"'
  | '\\' => some '\\'
  | '/' => some '/'
  | _ => none

/-- Reads a text up to its closing quote, as code units. -/
def textUnits : List Char → Option (List Nat × List Char)
  | [] => none
  | '"' :: rest => some ([], rest)
  | '\\' :: 'u' :: a :: b :: c :: d :: rest => do
    let unit ← hexUnit? a b c d
    let (units, rest) ← textUnits rest
    return (unit :: units, rest)
  | '\\' :: e :: rest => do
    let c ← escaped? e
    let (units, rest) ← textUnits rest
    return (c.toNat :: units, rest)
  | c :: rest => do
    let (units, rest) ← textUnits rest
    return (c.toNat :: units, rest)

/-- Joins pairs of surrogate units into characters. -/
def joinUnits : List Nat → List Char
  | [] => []
  | [unit] => [Char.ofNat unit]
  | high :: low :: rest =>
    if 0xd800 ≤ high ∧ high < 0xdc00 ∧ 0xdc00 ≤ low ∧ low < 0xe000 then
      Char.ofNat (0x10000 + 0x400 * (high - 0xd800) + (low - 0xdc00)) :: joinUnits rest
    else Char.ofNat high :: joinUnits (low :: rest)

def text? (s : List Char) : Option (String × List Char) := do
  let (units, rest) ← textUnits s
  return (String.ofList (joinUnits units), rest)

def isWordChar (c : Char) : Bool := c.isAlphanum || c = '-' || c = '+' || c = '.'

def whole? (s : List Char) : Option Int :=
  let (negative, digits) :=
    match s with
    | '-' :: ds => (true, ds)
    | ds => (false, ds)
  if digits.isEmpty || !digits.all Char.isDigit then none
  else
    let n : Int := Decimal.digitsValue digits
    some (if negative then -n else n)

def word? (s : List Char) : Option Value :=
  match String.ofList s with
  | "null" => some .null
  | "true" => some (.flag true)
  | "false" => some (.flag false)
  | word =>
    match whole? s with
    | some n => some (.int n)
    | none => (Binary64.ofText? word).map Value.float

mutual

def value : (fuel : Nat) → List Char → Option (Value × List Char)
  | 0, _ => none
  | fuel + 1, s =>
    match skipBlanks s with
    | '"' :: rest => do
      let (t, rest) ← text? rest
      return (.text t, rest)
    | '[' :: rest =>
      match skipBlanks rest with
      | ']' :: rest => some (.list [], rest)
      | rest => do
        let (items, rest) ← items fuel rest
        return (.list items, rest)
    | '\x7b' :: rest =>
      match skipBlanks rest with
      | '\x7d' :: rest => some (.map [], rest)
      | rest => do
        let (entries, rest) ← entries fuel rest
        return (.map (Value.ofEntries entries), rest)
    | rest => do
      let v ← word? (rest.takeWhile isWordChar)
      return (v, rest.dropWhile isWordChar)

def items : (fuel : Nat) → List Char → Option (List Value × List Char)
  | 0, _ => none
  | fuel + 1, s => do
    let (v, rest) ← value fuel s
    match skipBlanks rest with
    | ',' :: rest =>
      let (vs, rest) ← items fuel rest
      return (v :: vs, rest)
    | ']' :: rest => return ([v], rest)
    | _ => none

def entries : (fuel : Nat) → List Char → Option (List (Value × Value) × List Char)
  | 0, _ => none
  | fuel + 1, s => do
    let (key, rest) ← value fuel s
    match skipBlanks rest with
    | ':' :: rest =>
      let (v, rest) ← value fuel rest
      match skipBlanks rest with
      | ',' :: rest =>
        let (es, rest) ← entries fuel rest
        return ((key, v) :: es, rest)
      | '\x7d' :: rest => return ([(key, v)], rest)
      | _ => none
    | _ => none

end

/-- Reads a document that holds one value; an empty document holds nothing. -/
def read (s : String) : Option Value :=
  let chars := s.toList
  if (skipBlanks chars).isEmpty then some .null
  else
    match value (2 * chars.length + 2) chars with
    | some (v, rest) => if (skipBlanks rest).isEmpty then some v else none
    | none => none

end LoopTiling.Document
