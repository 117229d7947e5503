import LoopTiling.Command.Run
import LoopTiling.Proofs.Faults

/-!
# What stands against a summary

Workloads, hierarchies, mapspaces and times are summed up with their names and their numbers. Nothing but
a limit of the digits that can be shown stands against it.
-/
namespace LoopTiling

namespace Stopwatch

variable {P : Fault → Prop} {name : Value}

theorem failsOnly_start (h : name.isKey) (w : Stopwatch) (now : Binary64) :
    FailsOnly P (w.start name now) := by
  rw [start, if_pos h]
  exact failsOnly_ok _

theorem failsOnly_stop (h : name.isKey) (w : Stopwatch) (now : Binary64) :
    FailsOnly P (w.stop name now) := by
  rw [stop, if_pos h]
  split <;> exact failsOnly_ok _

end Stopwatch

variable [Text.DigitLimit]

namespace Workload

theorem failsOnly_boundsText (w : Workload) : FailsOnly Fault.OfLimit w.boundsText :=
  (FailsOnly.mapM fun _ _ => (failsOnly_decimal _).bind fun _ _ => failsOnly_ok _).bind
    fun _ _ => failsOnly_ok _

theorem failsOnly_summary (w : Workload) : FailsOnly Fault.OfLimit w.summary :=
  (failsOnly_text w.name).bind fun _ _ => (failsOnly_text w.path).bind fun _ _ =>
    w.failsOnly_boundsText.bind fun _ _ => (failsOnly_text w.stride).bind fun _ _ =>
      (failsOnly_text w.dilation).bind fun _ _ => (failsOnly_grouped w.macs).bind fun _ _ =>
        failsOnly_ok _

end Workload

theorem Level.failsOnly_summaryLine (place : ℕ) (l : Level) :
    FailsOnly Fault.OfLimit (l.summaryLine place) := by
  refine (failsOnly_text l.name).bind fun _ _ => (failsOnly_quoted l.factorMap).bind fun _ _ => ?_
  cases l.split with
  | some split => exact (failsOnly_numeral split).bind fun _ _ => failsOnly_ok _
  | none => exact failsOnly_ok _

theorem Hierarchy.failsOnly_summary (h : Hierarchy) : FailsOnly Fault.OfLimit h.summary :=
  (FailsOnly.mapM fun e _ => e.1.failsOnly_summaryLine e.2).bind fun _ _ => failsOnly_ok _

namespace MapSpace

theorem failsOnly_summary (m : MapSpace) : FailsOnly Fault.OfLimit m.summary :=
  (failsOnly_text m.workload.name).bind fun _ _ => (failsOnly_count _).bind fun _ _ =>
    (failsOnly_count _).bind fun _ _ => (failsOnly_count _).bind fun _ _ =>
      (failsOnly_count _).bind fun _ _ => (failsOnly_decimal _).bind fun _ _ => failsOnly_ok _

theorem failsOnly_builtLine (m : MapSpace) : FailsOnly Fault.OfLimit m.builtLine :=
  (failsOnly_text m.workload.name).bind fun _ _ => (failsOnly_count _).bind fun _ _ =>
    (failsOnly_count _).bind fun _ _ => (failsOnly_count _).bind fun _ _ =>
      (failsOnly_count _).bind fun _ _ => failsOnly_ok _

theorem failsOnly_checked (m : MapSpace) : FailsOnly Fault.OfLimit m.checked :=
  m.failsOnly_builtLine.bind fun _ _ => failsOnly_ok _

end MapSpace

theorem Stopwatch.failsOnly_report (w : Stopwatch) : FailsOnly Fault.OfLimit w.report :=
  (FailsOnly.mapM fun _ _ => (failsOnly_text _).bind fun _ _ => failsOnly_ok _).bind
    fun _ _ => failsOnly_ok _

namespace Command

theorem failsOnly_divisorLine (d : Dim) (bound : ℕ) : FailsOnly Fault.OfLimit (divisorLine d bound) :=
  (FailsOnly.mapM fun _ _ => failsOnly_decimal _).bind fun _ _ =>
    (failsOnly_quoted _).bind fun _ _ => failsOnly_ok _

theorem failsOnly_timing (elapsed : Binary64) : FailsOnly Fault.OfLimit (timing elapsed) :=
  (Stopwatch.failsOnly_start rfl _ _).bind fun started _ =>
    (started.failsOnly_stop rfl _).bind fun stopped _ => stopped.failsOnly_report

end Command

end LoopTiling
