import LoopTiling.Value.Access
import LoopTiling.Value.Sorted

/-!
# Stopwatches

A stopwatch adds up the time spent in named sections, in seconds. Any value that may be a key names a
section. Times are floating numbers, so every difference and every sum is rounded.
-/
namespace LoopTiling

abbrev Times := List (Value × Binary64)

namespace Times

def find? (name : Value) (times : Times) : Option Binary64 :=
  (List.find? (fun e => e.1.same name) times).map Prod.snd

def without (name : Value) (times : Times) : Times := times.filter fun e => !e.1.same name

/-- Adds time to a section; a section that is there keeps its place. -/
def add (name : Value) (time : Binary64) : Times → Times
  | [] => [(name, time)]
  | (n, t) :: rest => if n.same name then (n, t.add time) :: rest else (n, t) :: add name time rest

end Times

/-- Sections that run and the time of those that have stopped. -/
structure Stopwatch where
  /-- When each section began. -/
  running : Times := []
  /-- The time of each section, in the order of their first stop. -/
  times : Times := []

namespace Stopwatch

variable [Text.DigitLimit]

/-- Starts a section, again if it runs. -/
def start (name : Value) (now : Binary64) (w : Stopwatch) : Except Fault Stopwatch :=
  if name.isKey then .ok { w with running := (name, now) :: w.running.without name }
  else .error (.unsupported .type)

def stop (name : Value) (now : Binary64) (w : Stopwatch) : Except Fault Stopwatch :=
  if name.isKey then
    match w.running.find? name with
    | some began => .ok {
      running := w.running.without name
      times := w.times.add name (now.sub began) }
    | none => .ok w
  else .error (.unsupported .type)

def names (w : Stopwatch) : Except Fault (List Value) := Value.sorted (w.times.map Prod.fst)

def line (e : Value × Binary64) : Except Fault String := do
  let name ← shown e.1.text?
  return s!"  {name}: {e.2.fixed 3}s"

/-- The time of each section, the longest first. -/
def report (w : Stopwatch) : Except Fault String := do
  let longest := w.times.mergeSort fun a b => !a.2.isLess b.2
  return "\n".intercalate ("Timing Report:" :: (← longest.mapM line))

end Stopwatch

end LoopTiling
