import LoopTiling.Fault

/-!
# Document files

The documents that a command may read are given with their places, beside the directories that hold
none of them. A place is a path from the working directory, or from the root, without detours. A path
that is asked for is a list of names, and is followed from directory to directory: a single point
stays, two points go up, and any other name goes down. Directories above the working directory are
known, but not what else they hold.
-/
namespace LoopTiling.Command

/-- Documents and directories with their places. -/
structure Files where
  documents : List (String × Value) := []
  directories : List String := []

namespace Files

/-- The parts between the slashes of a path, whose first part starts with given characters. -/
def partsFrom (start : List Char) : List Char → List String
  | [] => [String.ofList start]
  | c :: rest =>
    if c = '/' then String.ofList start :: partsFrom [] rest else partsFrom (start ++ [c]) rest

def parts (path : String) : List String := partsFrom [] path.toList

def names (path : String) : List String := (parts path).filter (· ≠ "")

def isAbsolute (path : String) : Bool := path.toList.head? = some '/'

/-- The slashes that a path in normal form starts with: two stay two, and more are one. -/
def root (path : String) : String :=
  match (path.toList.takeWhile (· = '/')).length with
  | 0 => ""
  | 2 => "//"
  | _ => "/"

def segments (path : String) : List String := (names path).filter (· ≠ ".")

def normal (path : String) : String :=
  let text := root path ++ "/".intercalate (segments path)
  if text.isEmpty then "." else text

def start (path : String) : String := if isAbsolute path then "/" else "."

def isAbove (place : String) : Bool := (parts place).all (· = "..")

def up (place : String) : String :=
  if place = "." then ".."
  else if isAbove place then place ++ "/.."
  else if isAbsolute place then "/" ++ "/".intercalate (names place).dropLast
  else normal ("/".intercalate (names place).dropLast)

def down (place name : String) : String :=
  if place = "." then name
  else if place = "/" then "/" ++ name
  else place ++ "/" ++ name

def isDirectory (files : Files) (place : String) : Bool :=
  place = "." || place = "/" || isAbove place || files.directories.contains place ||
    files.documents.any fun f => (place.toList ++ ['/']).isPrefixOf f.1.toList

inductive Obstacle
  /-- A name is not there. -/
  | missing
  /-- A name behind that of a document. -/
  | document
  /-- A name that is too long for any file. -/
  | length
deriving DecidableEq

def maxNameBytes : Nat := 255

def maxPathBytes : Nat := 4095

def enter (files : Files) (place : String) : Except Obstacle Unit :=
  if files.isDirectory place then .ok ()
  else if (files.documents.lookup place).isSome then .error .document
  else .error .missing

def step (files : Files) (place name : String) : Except Obstacle String := do
  files.enter place
  if name = "." then return place
  if name = ".." then return up place
  if maxNameBytes < name.utf8ByteSize then throw .length
  return down place name

def follow (files : Files) (place : String) (names : List String) : Except Obstacle String :=
  names.foldlM files.step place

def isBroken (path : String) : Bool := path.toList.contains '\x00'

inductive Status
  | missing
  | directory
  | document (v : Value)

def statusAt (files : Files) (place : String) : Status :=
  match files.documents.lookup place with
  | some v => .document v
  | none => if files.isDirectory place then .directory else .missing

/-- What a path leads to. It must not be too long. -/
def status (files : Files) (path : String) : Except Fault Status :=
  if isBroken path then .ok .missing
  else if maxPathBytes < (normal path).utf8ByteSize then .error (.unsupported .path)
  else
    match files.follow (start path) (segments path) with
    | .ok place => .ok (files.statusAt place)
    | .error .length => .error (.unsupported .path)
    | .error _ => .ok .missing

def isThere (files : Files) (path : String) : Except Fault Bool := do
  match ← files.status path with
  | .missing => return false
  | _ => return true

/-- The document at a path; one that counts as false is an empty map. -/
def load (files : Files) (missing : String → Fault) (path : String) : Except Fault Value := do
  match ← files.status path with
  | .missing => throw (missing (normal path))
  | .directory => throw (.unsupported .directory)
  | .document v => return if v.truthy then v else .map []

/-- The fault of a path that cannot be written to. -/
def writeFault (path : String) : Obstacle → Fault
  | .missing => .outputFile path
  | .document => .unsupported .notDirectory
  | .length => .unsupported .path

def directoryOf (files : Files) (path : String) : Except Obstacle String := do
  let place ← files.follow (start path) (names path).dropLast
  files.enter place
  return place

/-- The place that a document may be written to under a path. -/
def placeToWrite (files : Files) (path : String) : Except Fault String := do
  if isBroken path then throw (.unsupported .value)
  if maxPathBytes < path.utf8ByteSize then throw (.unsupported .path)
  match (names path).getLast?, files.directoryOf path with
  | none, _ => throw (.unsupported .directory)
  | _, .error obstacle => throw (writeFault path obstacle)
  | some name, .ok directory =>
    if name = "." || name = ".." || path.toList.getLast? = some '/' then
      throw (.unsupported .directory)
    if maxNameBytes < name.utf8ByteSize then throw (.unsupported .path)
    let place := down directory name
    if files.isDirectory place then throw (.unsupported .directory)
    return place

end Files

end LoopTiling.Command
