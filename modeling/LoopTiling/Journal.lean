/-!
# Journals

What an operation reports while it works: records of a severity and a text, in order.
-/
namespace LoopTiling

inductive Severity
  | debug
  | info
  | error
deriving DecidableEq

structure Record where
  severity : Severity
  text : String
deriving DecidableEq

/-- The records of an operation, in order. -/
abbrev Journal := List Record

namespace Record

def severityName : Severity → String
  | .debug => "DEBUG"
  | .info => "INFO"
  | .error => "ERROR"

def line (r : Record) : String := severityName r.severity ++ " " ++ r.text

end Record

namespace Journal

/-- The records that are shown: all of them in a verbose journal, otherwise errors only. -/
def shown (verbose : Bool) (journal : Journal) : Journal :=
  journal.filter fun r => verbose || r.severity == .error

end Journal

end LoopTiling
