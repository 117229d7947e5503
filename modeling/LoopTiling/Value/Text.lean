import LoopTiling.Value.Basic
import LoopTiling.Decimal.Shortest
import LoopTiling.Text.Quoted

/-!
# The text of a value

A value has a plain text, in which a text stands for itself, and a quoted text, in which texts are
between quotes and words and dimensions show what they are. Inside collections the quoted form is
used. A value that holds an integer of too many digits has no text.
-/
namespace LoopTiling.Value

variable [Text.DigitLimit]

/-- Parts between brackets, divided by commas. -/
def bracketed (first : String) (parts : List String) (last : String) : String :=
  first ++ ", ".intercalate parts ++ last

/-- A tuple of quoted parts; one part alone keeps its comma. -/
def tupleText : List String → String
  | [part] => "(" ++ part ++ ",)"
  | parts => bracketed "(" parts ")"

mutual

def quoted? : Value → Option String
  | null => some "None"
  | flag b => some (if b then "True" else "False")
  | int n => Text.decimal? n
  | word w => some ("np.int64(" ++ toString w.toInt ++ ")")
  | dim d => some ("<Dimension." ++ d.name ++ ": " ++ toString d.index ++ ">")
  | float x => some x.text
  | text s => some (Text.quoted s)
  | list items => (quotedItems? items).map fun parts => bracketed "[" parts "]"
  | tuple items => (quotedItems? items).map tupleText
  | map entries => (quotedEntries? entries).map fun parts => bracketed "\x7b" parts "\x7d"

def quotedItems? : List Value → Option (List String)
  | [] => some []
  | v :: vs => do return (← v.quoted?) :: (← quotedItems? vs)

/-- The texts of entries: key, colon, value. -/
def quotedEntries? : List (Value × Value) → Option (List String)
  | [] => some []
  | (k, v) :: es => do
    return ((← k.quoted?) ++ ": " ++ (← v.quoted?)) :: (← quotedEntries? es)

end

def text? : Value → Option String
  | text s => some s
  | word w => some (toString w.toInt)
  | dim d => some d.name
  | v => v.quoted?

theorem quotedItems?_eq_mapM (vs : List Value) : quotedItems? vs = vs.mapM quoted? := by
  induction vs with
  | nil => rfl
  | cons v vs ih => simp [quotedItems?, ih]

end LoopTiling.Value
