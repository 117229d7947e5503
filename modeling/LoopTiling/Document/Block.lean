import LoopTiling.Value.Sorted

/-!
# Writing documents in block style

Maps and lists are written over several lines. The keys of a map are in order; a map inside a map is
indented by two blanks, and the items of a list stand behind dashes at the indent of its key. A text
that runs beyond the width of a line goes on below, at a gap of one blank.
-/
namespace LoopTiling.Document

def floatText (x : Binary64) : String :=
  match x with
  | .nan => ".nan"
  | .infinite negative => if negative then "-.inf" else ".inf"
  | .finite .. =>
    let digits := x.text.toList
    if '.' ∈ digits then x.text
    else String.ofList (digits.takeWhile (· ≠ 'e') ++ ['.', '0'] ++ digits.dropWhile (· ≠ 'e'))

def lineWidth : Nat := 80

/-- A text from a column on, in lines; `line` is the line so far, the last character first. The
lines after the first begin at the column `indent`. -/
def wrapFrom (indent : Nat) : (column : Nat) → (line : List Char) → List Char → List String
  | _, line, [] => [String.ofList line.reverse]
  | column, line, ' ' :: c :: rest =>
    if lineWidth < column && c != ' ' && line.head? != some ' ' then
      String.ofList line.reverse :: wrapFrom indent indent [] (c :: rest)
    else wrapFrom indent (column + 1) (' ' :: line) (c :: rest)
  | column, line, c :: rest => wrapFrom indent (column + 1) (c :: line) rest

/-- The text of a value that is no collection, or an empty one. -/
def scalar : Value → String
  | .null => "null"
  | .flag b => if b then "true" else "false"
  | .list _ | .tuple _ => "[]"
  | .map _ => "\x7b\x7d"
  | .float x => floatText x
  | .int n => toString n
  | .word w => toString w.toInt
  | .dim d => d.name
  | .text s => s

/-- Entries in the order of their keys; they stay as they are if the keys have no order. -/
def inKeyOrder {α : Type} (es : List (Value × α)) : List (Value × α) :=
  match Value.sortedBy Prod.fst es with
  | .ok sorted => sorted
  | .error _ => es

def dashed : List String → List String
  | [] => []
  | line :: lines => ("- " ++ line) :: lines.map ("  " ++ ·)

/-- Lines behind a key, all but the first further in. -/
def behind (key : String) : List String → List String
  | [] => []
  | line :: lines => (key ++ " " ++ line) :: lines.map ("  " ++ ·)

def keyed (key : String) (v : Value) (lines : List String) : List String :=
  match v with
  | .map (_ :: _) => key :: lines.map ("  " ++ ·)
  | .list (_ :: _) | .tuple (_ :: _) => key :: lines
  | _ => behind key lines

def keyText (key : Value) : String := scalar key ++ ":"

/-- The column of the first line of a value behind a key, and that of its other lines. -/
def columnsBehind (indent : Nat) (key : String) : Value → Nat × Nat
  | .map (_ :: _) => (indent + 2, indent + 2)
  | .list (_ :: _) | .tuple (_ :: _) => (indent, indent)
  | _ => (indent + key.length + 1, indent + 2)

mutual

/-- The lines of a value, of which the first begins at one column and the others at another. -/
def blockLines (first others : Nat) : Value → List String
  | .list (v :: vs) => blockItems others (v :: vs)
  | .tuple (v :: vs) => blockItems others (v :: vs)
  | .map (e :: es) => (inKeyOrder (blockEntries others (e :: es))).flatMap Prod.snd
  | v => wrapFrom others first [] (scalar v).toList

def blockItems (indent : Nat) : List Value → List String
  | [] => []
  | v :: vs => dashed (blockLines (indent + 2) (indent + 2) v) ++ blockItems indent vs

/-- The lines of each entry at a column, with its key. -/
def blockEntries (indent : Nat) : List (Value × Value) → List (Value × List String)
  | [] => []
  | (k, v) :: es =>
    let key := keyText k
    let (first, others) := columnsBehind indent key v
    (k, keyed key v (blockLines first others v)) :: blockEntries indent es

end

def block (v : Value) : String := String.join ((blockLines 0 0 v).map (· ++ "\n"))

end LoopTiling.Document
