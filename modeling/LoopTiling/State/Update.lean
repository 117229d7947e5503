import LoopTiling.Fault
import LoopTiling.Journal

/-!
# Objects that calls set up

An object is set up by calls, and each call writes to it as it goes. A fault ends a call where it
stands; what the call has written before stays written. There are two kinds of calls: one sets the
object up anew, the other sets up one of its levels.
-/
namespace LoopTiling

/-- A call on an object whose state is `σ`. -/
abbrev Update (σ α : Type) := EStateM Fault σ α

namespace Update

variable {σ α : Type}

/-- A part of a call that writes nothing. -/
def check (x : Except Fault α) : Update σ α :=
  match x with
  | .ok a => pure a
  | .error fault => throw fault

/-- The object after a call, whether the call has returned or failed. -/
def after (u : Update σ α) (s : σ) : σ :=
  match u s with
  | .ok _ s' => s'
  | .error _ s' => s'

theorem after_of_check {u : Update σ α} {x : Except Fault α} {s s' : σ} (h : u s = check x s') :
    u.after s = s' := by
  rw [after, h]
  cases x <;> rfl

end Update

/-- A call that sets an object up anew, or one that sets up a level of it. -/
inductive Call (ι κ : Type)
  | init (arg : ι)
  | level (level : Value) (arg : κ)

end LoopTiling
