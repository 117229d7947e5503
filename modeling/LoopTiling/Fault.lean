import LoopTiling.Value.Text

/-!
# Faults

Why an operation refuses its input. A fault is a cause together with the values it is about; its
kind tells what went wrong in general, and its message is the sentence a user reads. Faults of the
value itself, such as a text where a number is needed, carry no message. A fault whose sentence would
show an integer of too many digits turns into a fault of that value.
-/
namespace LoopTiling

inductive FaultKind
  /-- A workload, level structure or space constraint is invalid. -/
  | configuration
  /-- An argument has the right type but no acceptable value. -/
  | value
  | type
  | index
  | key
  | missingFile
  | zeroDivision
  /-- A number does not fit its format. -/
  | overflow
  /-- A value does not have the operation asked for. -/
  | attribute
  /-- A directory stands where a file is needed. -/
  | directory
  /-- A file stands where a directory is needed. -/
  | notDirectory
  | path
  /-- A word is put in order with a text. -/
  | wordOrder
  /-- A value is too large to be held. -/
  | memory
deriving DecidableEq

inductive Fault
  /-- The value does not support the operation. -/
  | unsupported (kind : FaultKind)
  | inDimension (d : Dim) (cause : Fault)
  | notWhole (what : String) (given : Value)
  /-- A pin's level or factor is no whole number. -/
  | pinNotWhole (what : String) (given : Value)
  | indexRange (what : String) (index : Int) (size : Value)
  | digitCount (expected given : Nat)
  | digitRange (digit radix : Value)
  | negativeFactorial (n : Value)
  | orderingLength (given expected : Nat)
  | notRearrangement (item : Value) (items : List Value)
  | axisRadix (axis : Nat) (given : Value)
  | factorBound (given : Value)
  | factorLevelCount (given : Value)
  | pinLevel (level : Int) (levelCount : Numeral)
  | pinFactor (level factor : Int)
  | pinNotDivisor (level factor : Int) (bound : Numeral)
  | pinsNotDivisor (product : Int) (bound : Numeral)
  | pinsMissBound (levelCount : Numeral) (product : Int) (bound : Numeral)
  | factorLevel (level : Value) (levelCount : Numeral)
  | unknownPlace (given : Value)
  | unknownName (given : Value)
  | missingPerDim (what : String) (missing : List Dim)
  | perDimLength (what : String) (given : Nat)
  | factorSpaceEmpty
  | spaceLevelCount (given : Value)
  | levelRange (level : Value) (levelCount : Numeral)
  | prunedTwice (level : Value) (names : List Dim)
  | orderedTwice (level : Value) (names : List Dim)
  | orderMissing (level : Value)
  | unitRange (level given : Value)
  | splitRange (level given : Value)
  | levelFactor (name : Value) (d : Dim) (given : Value)
  | levelOrderTwice (name : Value) (names : List Dim)
  | temporalSplit (name : Value)
  | levelSplit (name given : Value)
  | noLevels
  | levelNamedTwice (name : Value)
  | noLevelList
  | layerBound (layer : String) (d : Dim) (given : Value)
  | layerMissing (layer : String) (missing : List Dim)
  | unknownLayer (name : Value)
  | noLayers
  | workloadBound (name : Value) (d : Dim) (given : Value)
  | problemNotMap (path : Value)
  | problemMissing (path : Value) (missing : List Dim)
  | notSpatial (level : Value)
  | workloadFile (path : String)
  | levelFile (path : String)
  | layerFile (path : String)
  | outputFile (path : String)

namespace Fault

def causeKind : Fault → FaultKind
  | unsupported k => k
  | notWhole .. => .type
  | indexRange .. | factorLevel .. => .index
  | digitCount .. | digitRange .. | negativeFactorial .. | orderingLength ..
  | notRearrangement .. => .value
  | notSpatial .. => .key
  | workloadFile .. | levelFile .. | layerFile .. | outputFile .. => .missingFile
  | _ => .configuration

/-- The parts of a sentence in a row, if all of them can be shown. -/
def said (parts : List (Option String)) : Option String := String.join <$> parts.mapM id

variable [Text.DigitLimit]

def nameList (ds : List Dim) : Option String := (Value.list (ds.map fun d => .text d.name)).quoted?

def wholeNeeded (what : String) (given : Value) : String :=
  s!"{what} must be an int, got {given.typeName}"

/-- The sentence for a fault, empty for a fault that has none; nothing if it cannot be shown. -/
def sentence? : Fault → Option String
  | unsupported _ => some ""
  | inDimension d cause => said [s!"Dimension {d.name}: ", cause.sentence?]
  | notWhole what given | pinNotWhole what given => some (wholeNeeded what given)
  | indexRange what index size =>
    said [what, " index ", Text.decimal? index, " out of range [0, ", size.text?, ")"]
  | digitCount expected given => some s!"Expected {expected} digits, got {given}"
  | digitRange digit radix => said ["Digit ", digit.text?, " out of range for radix ", radix.text?]
  | negativeFactorial n => said ["factorial() not defined for negative values: ", n.text?]
  | orderingLength given expected => some s!"Ordering has {given} items, expected {expected}"
  | notRearrangement item items =>
    said [item.quoted?, " is not a permutation of ", (Value.list items).quoted?]
  | axisRadix axis given =>
    said [s!"Radix of axis {axis} must be a positive integer, got ", given.text?]
  | factorBound given => said ["Bound must be a positive integer, got ", given.quoted?]
  | factorLevelCount given =>
    said ["Number of levels must be a positive integer, got ", given.quoted?]
  | pinLevel level levelCount =>
    said ["Pinned level ", Text.decimal? level, " out of range [0, ", levelCount.text?, ")"]
  | pinFactor level factor =>
    said ["Pinned factor at level ", Text.decimal? level, " must be a positive integer, got ",
      Text.decimal? factor]
  | pinNotDivisor level factor bound =>
    said ["Pinned factor ", Text.decimal? factor, " at level ", Text.decimal? level,
      " does not divide bound ", bound.text?]
  | pinsNotDivisor product bound =>
    said ["Bound ", bound.text?, " is not divisible by the product of pinned factors (",
      Text.decimal? product, ")"]
  | pinsMissBound levelCount product bound =>
    said ["All ", levelCount.text?, " levels are pinned but their product (",
      Text.decimal? product, ") != bound (", bound.text?, ")"]
  | factorLevel level levelCount =>
    said ["Level ", level.text?, " out of range [0, ", levelCount.text?, ")"]
  | unknownPlace given => said ["Unknown problem dimension index: ", given.text?]
  | unknownName given => said ["Unknown problem dimension: ", given.quoted?]
  | missingPerDim what missing => said ["Missing ", what, " for dimensions ", nameList missing]
  | perDimLength what given => some s!"Expected {Dim.count} {what}, got {given}"
  | factorSpaceEmpty => some "IndexFactorizationSpace used before init()"
  | spaceLevelCount given =>
    said ["Number of levels must be a non-negative integer, got ", given.quoted?]
  | levelRange level levelCount =>
    said ["Level ", level.quoted?, " out of range [0, ", levelCount.text?, ")"]
  | prunedTwice level names =>
    said ["Level ", level.text?, ": duplicate pruned dimensions ", nameList names]
  | orderedTwice level names =>
    said ["Level ", level.text?, ": duplicate dimensions in permutation ", nameList names]
  | orderMissing level => said ["Permutation level ", level.text?, " was never initialized"]
  | unitRange level given =>
    said ["Level ", level.text?, s!": unit factors must be in [0, {Dim.count}], got ",
      given.quoted?]
  | splitRange level given | levelSplit level given =>
    said ["Level ", level.text?, s!": split must be in [0, {Dim.count}], got ", given.quoted?]
  | levelFactor name d given =>
    said ["Level ", name.text?, s!": factor of {d.name} must be a positive integer, got ",
      given.quoted?]
  | levelOrderTwice name names =>
    said ["Level ", name.text?, ": duplicate dimensions in permutation ", nameList names]
  | temporalSplit name => said ["Level ", name.text?, ": split given for a temporal level"]
  | noLevels => some "Level hierarchy needs at least one level"
  | levelNamedTwice name => said ["Duplicate level name: ", name.text?]
  | noLevelList => some "Level configuration needs a 'levels' list"
  | layerBound layer d given =>
    said [s!"Layer {layer}: bound of {d.name} must be a positive integer, got ", given.quoted?]
  | layerMissing layer missing =>
    said [s!"Layer {layer}: missing dimensions ", nameList missing]
  | unknownLayer name => said ["Layer ", name.text?, " not found in dictionary."]
  | noLayers => some "Layer table must have a 'layers' section"
  | workloadBound name d given =>
    said ["Workload ", name.text?, s!": {d.name} must be a positive integer, got ", given.quoted?]
  | problemNotMap path => said [path.text?, ": 'problem' must be a mapping"]
  | problemMissing path missing =>
    said [path.text?, ": missing problem dimensions ", nameList missing]
  | notSpatial level => said ["Level ", level.text?, " is not a spatial level"]
  | workloadFile path => some s!"Workload file not found: {path}"
  | levelFile path => some s!"Config file not found: {path}"
  | layerFile path => some s!"Layer table not found: {path}"
  | outputFile path => some s!"[Errno 2] No such file or directory: {Text.quoted path}"

def kind (fault : Fault) : FaultKind :=
  if fault.sentence?.isSome then fault.causeKind else .value

def message? : Fault → Option String
  | unsupported _ => none
  | fault => fault.sentence?

end Fault

/-- A part of a text, which must be one that can be shown. -/
def shown (part : Option String) : Except Fault String :=
  match part with
  | some s => .ok s
  | none => .error (.unsupported .value)

end LoopTiling
