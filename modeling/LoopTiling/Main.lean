import LoopTiling.Command.Run
import LoopTiling.Document.Reader

/-!
# The program

Reads the documents that the arguments name, runs the command on them, and carries out what it has
done: prints its lines, writes its documents, and sends its journal to the error stream. Documents
are in flow style.
-/
namespace LoopTiling.Command

/-- The paths that a command line may read. -/
def inputPaths (args : List String) : List String :=
  match readArguments args with
  | .accepted invocation =>
    let problem :=
      match invocation.request with
      | some (.info p) | some (.size p) | some (.decode p _ _) => p.workload :: p.arch.toList
      | _ => []
    invocation.layersFile.toList ++ problem
  | _ => []

def outputPath? (args : List String) : Option String :=
  match readArguments args with
  | .accepted ⟨_, _, some (.decode _ _ output)⟩ => output
  | _ => none

def look (files : Files) (place : String) : IO Files := do
  try
    match Document.read (← IO.FS.readFile place) with
    | some v => return { files with documents := (place, v) :: files.documents }
    | none => throw (IO.userError s!"{place} is not a document in flow style")
  catch
    | .noFileOrDirectory .. => return files
    | .inappropriateType .. => return { files with directories := place :: files.directories }
    | e => throw e

/-- Adds what is on the way along names to the files. -/
def explore (files : Files) (place : String) : List String → IO Files
  | [] => return files
  | name :: names =>
    match files.step place name with
    | .ok next => do explore (← look files next) next names
    | .error _ => return files

def readFiles (args : List String) : IO Files := do
  let files ← (inputPaths args).foldlM (fun files path =>
    explore files (Files.start path) (Files.segments path)) {}
  match outputPath? args with
  | none => return files
  | some path => explore files (Files.start path) (Files.names path).dropLast

/-- A draw below a size: from a seed, or else from a fresh number. -/
def drawFrom (fresh : Nat) (seed : Option Int) (size : Nat) : Nat :=
  (randNat (mkStdGen ((seed.map Int.natAbs).getD fresh)) 0 (size - 1)).1

end LoopTiling.Command

open LoopTiling LoopTiling.Command in
def main (args : List String) : IO UInt32 := do
  let env : Environment :=
    ⟨← readFiles args, drawFrom (← IO.rand 0 Number.wordLimit), .zero false⟩
  let outcome := run env args
  for r in outcome.session.journal do
    IO.eprintln r.line
  IO.print outcome.text
  for (path, text) in outcome.session.written do
    IO.FS.writeFile path text
  match outcome.exit with
  | .ok status => return status.toUInt32
  | .error fault =>
    IO.eprintln (fault.sentence?.getD "")
    return 1
