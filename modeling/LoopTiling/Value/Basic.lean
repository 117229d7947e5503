import LoopTiling.Dim
import LoopTiling.Decimal.Binary64
import LoopTiling.Text.Digit

/-!
# Configuration values

What a configuration document, a caller or an answer may hold. A value is untyped until one of
the library's readers accepts it, so that every refusal can show the value as it was given. A map is
a list of entries in the order of insertion.
-/
namespace LoopTiling

/-- A configuration value. -/
inductive Value
  | null
  | flag (b : Bool)
  | int (n : Int)
  /-- A signed 64-bit word. -/
  | word (w : Int64)
  /-- A dimension, which is also the number of its place. -/
  | dim (d : Dim)
  | float (x : Binary64)
  | text (s : String)
  | list (items : List Value)
  | tuple (items : List Value)
  | map (entries : List (Value × Value))
deriving Inhabited

/-- A whole number as a configuration writes it: in digits, or as a dimension that stands for its
place. -/
inductive Numeral
  | plain (n : Int)
  | dim (d : Dim)
deriving DecidableEq, Inhabited

namespace Numeral

def toInt : Numeral → Int
  | plain n => n
  | dim d => d.index

def toValue : Numeral → Value
  | plain n => .int n
  | dim d => .dim d

/-- A numeral in running text, if it has few enough digits. -/
def text? [Text.DigitLimit] : Numeral → Option String
  | plain n => Text.decimal? n
  | dim d => some d.name

@[simp] theorem toInt_plain (n : Int) : (plain n).toInt = n := rfl

@[simp] theorem toInt_dim (d : Dim) : (dim d).toInt = d.index := rfl

end Numeral

namespace Value

def typeName : Value → String
  | null => "NoneType"
  | flag _ => "bool"
  | int _ => "int"
  | word _ => "int64"
  | dim _ => "Dimension"
  | float _ => "float"
  | text _ => "str"
  | list _ => "list"
  | tuple _ => "tuple"
  | map _ => "dict"

/-- Whether a value counts as true: a number other than zero, a text or collection that is not
empty. -/
def truthy : Value → Bool
  | null => false
  | flag b => b
  | int n => n ≠ 0
  | word w => w ≠ 0
  | dim d => d.index ≠ 0
  | float x => !x.isZero
  | text s => s ≠ ""
  | list items => !items.isEmpty
  | tuple items => !items.isEmpty
  | map entries => !entries.isEmpty

/-- The whole number that a value may be used as: a truth value, an integer, a word or a
dimension. -/
def index? : Value → Option Int
  | flag b => some b.toNat
  | int n => some n
  | word w => some w.toInt
  | dim d => some d.index
  | _ => none

/-- The numeral that a value is: an integer or a dimension, but no truth value and no word. -/
def numeral? : Value → Option Numeral
  | int n => some (.plain n)
  | dim d => some (.dim d)
  | _ => none

def isNull : Value → Bool
  | null => true
  | _ => false

@[simp] theorem numeral?_toValue (n : Numeral) : n.toValue.numeral? = some n := by cases n <;> rfl

@[simp] theorem index?_toValue (n : Numeral) : n.toValue.index? = some n.toInt := by
  cases n <;> rfl

end Value

end LoopTiling
