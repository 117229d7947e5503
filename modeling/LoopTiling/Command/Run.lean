import LoopTiling.Command.Arguments
import LoopTiling.Command.Load
import LoopTiling.Document.Block
import LoopTiling.Stopwatch

/-!
# Running a command

A command reads a layer table, a workload and a hierarchy, and prints what it is asked for. It is a
function of the documents it may read, of what a draw at random gives, and of the time that building
a mapspace takes. Invalid configurations, missing files and indices out of range end it with an
error line and exit status one.
-/
namespace LoopTiling.Command

/-- What a command finds around it. -/
structure Environment where
  files : Files
  /-- The index drawn below a size, from a seed if there is one. -/
  draw : Option Int → Nat → Nat
  /-- The seconds that building a mapspace takes. -/
  elapsed : Binary64

variable [Text.DigitLimit]

def loadRegistry (env : Environment) : Option String → Task Registry
  | none => loadPackaged
  | some path => loadRegistryFile env.files path

/-- The workload of a file, or that of a named layer where there is no such file. -/
def loadWorkload (env : Environment) (registry : Registry) (problem : Problem) :
    Task Workload := do
  if ← check (env.files.isThere problem.workload) then
    loadWorkloadFile env.files (some registry) problem.workload
  else
    let layer := Value.text problem.workload
    readWorkload registry (Workload.layerConfig layer (.flag problem.pad)) layer

def loadHierarchy (env : Environment) : Option String → Task Hierarchy
  | none => return Hierarchy.default
  | some path => loadHierarchyFile env.files path

def loadProblem (env : Environment) (layersFile : Option String) (problem : Problem) :
    Task (Workload × Hierarchy) := do
  let registry ← loadRegistry env layersFile
  let workload ← loadWorkload env registry problem
  return (workload, ← loadHierarchy env problem.arch)

def rule : String := String.ofList (List.replicate 60 '=')

def divisorLine (d : Dim) (bound : Nat) : Except Fault String := do
  let primes ← (Divisor.primeFactors bound).mapM fun (p : Nat) => shown (Text.decimal? p)
  let divisors := Value.list ((Divisor.divisors bound).map fun (n : Nat) => .int n)
  let list ← shown divisors.quoted?
  let product := if primes.isEmpty then "1" else " x ".intercalate primes
  return s!"  {d.name}: {list} ({product})"

def runInfo (workload : Workload) (hierarchy : Hierarchy) : Task Nat := do
  print "Workload Information"
  print rule
  print (← check workload.summary)
  print "\nDivisors:"
  for d in Dim.all do
    print (← check (divisorLine d (workload.bounds.get d)))
  print "\nLevel Information"
  print rule
  print (← check hierarchy.summary)
  return 0

def timing (elapsed : Binary64) : Except Fault String := do
  let started ← ({} : Stopwatch).start (.text "init") (.zero false)
  (← started.stop (.text "init") elapsed).report

/-- Shows the sizes of a mapspace, and in a verbose run the time it took. -/
def runSize (env : Environment) (verbose : Bool) (workload : Workload) (hierarchy : Hierarchy) :
    Task Nat := do
  let space ← buildMapSpace workload hierarchy
  print (← check space.summary)
  if verbose then
    print (← check (timing env.elapsed))
  return 0

/-- Shows one mapping, and writes it to a file on request. -/
def runDecode (env : Environment) (pick : Pick) (output : Option String) (workload : Workload)
    (hierarchy : Hierarchy) : Task Nat := do
  let space ← buildMapSpace workload hierarchy
  let index :=
    match pick with
    | .index n => n
    | .random seed => (env.draw seed space.size : Int)
  let mapping ← check (space.decode (.int index))
  let size ← check (shown (Decimal.count? space.size))
  print s!"Mapspace size: {size}"
  print (← check mapping.pretty)
  let errors ← check (mapping.validate workload)
  note (errors.map fun e => ⟨.error, e⟩)
  if let some path := output then
    let place ← check (env.files.placeToWrite path)
    write place (Document.block (← check mapping.toConfig))
    print s!"\nMapping saved to: {path}"
  return if errors.isEmpty then 0 else 1

def runRequest (env : Environment) (invocation : Invocation) (request : Request) : Task Nat := do
  match request with
  | .layers =>
    for name in (← loadRegistry env invocation.layersFile).names do
      print name
    return 0
  | .info problem =>
    let (workload, hierarchy) ← loadProblem env invocation.layersFile problem
    runInfo workload hierarchy
  | .size problem =>
    let (workload, hierarchy) ← loadProblem env invocation.layersFile problem
    runSize env invocation.verbose workload hierarchy
  | .decode problem pick output =>
    let (workload, hierarchy) ← loadProblem env invocation.layersFile problem
    runDecode env pick output workload hierarchy

/-- What a command comes to: its exit status, or a fault that ends the program, and what it has
done. -/
structure Outcome where
  exit : Except Fault Nat
  session : Session

/-- Whether a fault ends a command with an error line. -/
def isReported (fault : Fault) : Bool :=
  match fault.kind with
  | .configuration | .missingFile | .index => true
  | _ => false

def faultText : Fault → String
  | .unsupported _ => "list index out of range"
  | fault => fault.sentence?.getD ""

/-- Ends a command: reports the fault it may have met. -/
def finish (verbose : Bool) (result : Except Fault Nat) (session : Session) : Outcome :=
  match result with
  | .ok status => ⟨.ok status, session⟩
  | .error fault =>
    if isReported fault then
      ⟨.ok 1, { session with
        printed := session.printed ++ [s!"Error: {faultText fault}\n"]
        journal := session.journal ++
          if verbose then [⟨.error, "Command failed"⟩] else [] }⟩
    else ⟨.error fault, session⟩

/-- What stands for the text that tells how the program is used. -/
def usage : String := "<usage>"

/-- Carries out a command line. Exit status two is that of arguments that cannot be read. -/
def run (env : Environment) (args : List String) : Outcome :=
  match readArguments args with
  | .help => ⟨.ok 0, { printed := [usage] }⟩
  | .refused => ⟨.ok 2, {}⟩
  | .accepted invocation =>
    match invocation.request with
    | none => ⟨.ok 1, { printed := [usage] }⟩
    | some request =>
      let (result, session) := (runRequest env invocation request).outcome
      let outcome := finish invocation.verbose result session
      { outcome with session := { outcome.session with
          journal := outcome.session.journal.shown invocation.verbose } }

def Outcome.text (o : Outcome) : String := String.join o.session.printed

end LoopTiling.Command
