import LoopTiling.Command.Files
import LoopTiling.MapSpace

/-!
# Loading documents

A layer table, a workload or a hierarchy is read from a document, and what is loaded is reported. A
task reports as it goes, and what it has done stays done if it fails.
-/
namespace LoopTiling.Command

/-- What a command has done so far. -/
structure Session where
  /-- The lines printed, in order. -/
  printed : List String := []
  journal : Journal := []
  /-- The documents written, with their paths. -/
  written : List (String × String) := []

/-- A part of a command: what it has done stays done if it fails. -/
abbrev Task := ExceptT Fault (StateM Session)

def print (text : String) : Task Unit :=
  modify fun s => { s with printed := s.printed ++ [text ++ "\n"] }

def note (records : Journal) : Task Unit :=
  modify fun s => { s with journal := s.journal ++ records }

def write (path text : String) : Task Unit :=
  modify fun s => { s with written := s.written ++ [(path, text)] }

/-- Goes on with a result, or fails with its fault. -/
def check {α : Type} (result : Except Fault α) : Task α := ExceptT.mk (pure result)

variable [Text.DigitLimit]

def packagedName : String := "<packaged>"

def loadPackaged : Task Registry := do
  note (Registry.packaged.loaded packagedName)
  return Registry.packaged

def loadRegistryFile (files : Files) (path : String) : Task Registry := do
  let registry ← check do Registry.ofConfig (← files.load .layerFile path)
  note (registry.loaded (Files.normal path))
  return registry

def readWorkload (registry : Registry) (config path : Value) : Task Workload := do
  note (Workload.reported registry config path)
  check (Workload.ofConfig registry config path)

def namesLayer (config path : Value) : Bool :=
  match Workload.problemOf config path with
  | .ok problem => !(Workload.layerOf problem).1.isNull
  | .error _ => false

/-- The workload of a file. Without a registry the common layers are loaded when one of them is
named. -/
def loadWorkloadFile (files : Files) (registry : Option Registry) (path : String) :
    Task Workload := do
  let config ← check (files.load .workloadFile path)
  let path := Value.text (Files.normal path)
  match registry with
  | some registry => readWorkload registry config path
  | none =>
    let registry ← if namesLayer config path then loadPackaged else pure Registry.packaged
    readWorkload registry config path

def loadHierarchyFile (files : Files) (path : String) : Task Hierarchy := do
  let hierarchy ← check do Hierarchy.ofConfig (← files.load .levelFile path)
  note (hierarchy.loaded (Files.normal path))
  return hierarchy

def buildMapSpace (workload : Workload) (hierarchy : Hierarchy) : Task MapSpace := do
  let space ← check (MapSpace.assemble workload hierarchy)
  note space.reported
  check space.checked

/-- What a task comes to, and what it has done. -/
def Task.outcome {α : Type} (task : Task α) : Except Fault α × Session := task.run.run {}

end LoopTiling.Command
