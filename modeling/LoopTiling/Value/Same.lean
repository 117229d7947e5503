import LoopTiling.Value.Basic

/-!
# Sameness of keys

Keys of maps are found by exact value. Truth values, integers, words, dimensions and floating numbers
are the same when they are equal as numbers; what is not a number is not the same as itself. Lists and
tuples are compared item by item and are never the same as each other; maps are the same when each
has the other's entries, in whatever order.
-/
namespace LoopTiling.Value

def sameInt (n : Int) : Value → Bool
  | float x => x.compareInt? n == some .eq
  | v => v.index? == some n

mutual

def same : Value → Value → Bool
  | null, null => true
  | flag b, w => sameInt b.toNat w
  | int n, w => sameInt n w
  | word x, w => sameInt x.toInt w
  | dim d, w => sameInt d.index w
  | float x, float y => x.compare? y == some .eq
  | float x, w =>
    match w.index? with
    | some n => x.compareInt? n == some .eq
    | none => false
  | text s, text t => s == t
  | list vs, list ws => sameItems vs ws
  | tuple vs, tuple ws => sameItems vs ws
  | map es, map fs => es.length == fs.length && sameEntries es fs
  | _, _ => false

/-- Whether two lists have the same items in the same order. -/
def sameItems : List Value → List Value → Bool
  | [], [] => true
  | v :: vs, w :: ws => v.same w && sameItems vs ws
  | _, _ => false

/-- Whether every entry has a counterpart with the same key and the same value. -/
def sameEntries : List (Value × Value) → List (Value × Value) → Bool
  | [], _ => true
  | (k, v) :: es, fs => fs.any (fun f => k.same f.1 && v.same f.2) && sameEntries es fs

end

def find? (key : Value) : List (Value × Value) → Option Value
  | [] => none
  | (k, v) :: es => if k.same key then some v else find? key es

/-- Sets a key of a map. A key that is there keeps its place and its spelling; a new one goes to
the end. -/
def insert (key value : Value) : List (Value × Value) → List (Value × Value)
  | [] => [(key, value)]
  | (k, v) :: es => if k.same key then (k, value) :: es else (k, v) :: insert key value es

/-- The map with the given entries, a later one replacing the value of an earlier one with the same
key. -/
def ofEntries (es : List (Value × Value)) : List (Value × Value) :=
  es.foldl (fun m e => insert e.1 e.2 m) []

end LoopTiling.Value
