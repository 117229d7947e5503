import LoopTiling.Proofs.MapSpace.Construction
import LoopTiling.Proofs.Summaries

/-!
# What a mapspace is refused for

The pins of a hierarchy are whole numbers, and its levels are valid. So the mapspace of a workload on it
is built, or refused for its configuration, or its sizes have too many digits.
-/
namespace LoopTiling

theorem FailsOnly.nameDim [Text.DigitLimit] {α : Type} {x : Except Fault α} {d : Dim}
    (h : FailsOnly Fault.Answerable x) : FailsOnly Fault.Answerable (FactorSpace.nameDim d x) := by
  cases x with
  | ok a => exact failsOnly_ok a
  | error fault =>
    rw [FactorSpace.nameDim]
    split
    · exact failsOnly_refusal rfl
    · exact h

namespace Counter

variable [Text.DigitLimit]

theorem failsOnly_checkRadices (axis : ℕ) (sizes : List ℕ) :
    FailsOnly Fault.Answerable (checkRadices axis (sizes.map fun (n : ℕ) => .int n)) := by
  induction sizes generalizing axis with
  | nil => exact failsOnly_ok _
  | cons n sizes ih =>
    have hradix : FailsOnly Fault.Answerable (checkRadix axis (.int n)) :=
      FailsOnly.refuse (.inl rfl) fun _ => failsOnly_ok _
    exact hradix.bind fun _ _ => (ih (axis + 1)).bind fun _ _ => failsOnly_ok _

theorem failsOnly_ofSizes (sizes : List ℕ) : FailsOnly Fault.Answerable (ofSizes sizes) :=
  (failsOnly_checkRadices 0 sizes).bind fun _ _ => failsOnly_ok _

end Counter

namespace MapSpace

variable [Text.DigitLimit] {h : Hierarchy}

theorem failsOnly_factorSpace (w : Workload) (h : Hierarchy) :
    FailsOnly Fault.Answerable (factorSpace w h) := by
  rw [factorSpace_eq_bind]
  refine (FailsOnly.ofFnM fun d => FailsOnly.nameDim ?_).bind fun tables _ =>
    (Counter.failsOnly_ofSizes _).bind fun _ _ => failsOnly_ok _
  exact (FactorTable.failsOnly_pinValue _ _ (h.pinsOf d)).mono fun _ hf => hf.answerable

theorem failsOnly_assemble (w : Workload) (hh : h.Valid) :
    FailsOnly Fault.Answerable (assemble w h) := by
  have horders : orderSpace w h = .ok (.ofPatterns (patternsOf w h)) :=
    orderSpace_eq_ok.mpr ⟨lead_nodup_of_valid hh, rfl⟩
  have hsplits : splitSpace w h = .ok (.ofRules h.levelCount (rulesOf w h)) :=
    splitSpace_eq_ok.mpr ⟨splitInRange_of_valid hh, rfl⟩
  simp only [assemble, horders, hsplits, OrderSpace.size_ofPatterns, ok_bind]
  exact (failsOnly_factorSpace w h).bind fun _ _ => (Counter.failsOnly_ofSizes _).bind
    fun _ _ => failsOnly_ok _

/-- The mapspace of a workload on a valid hierarchy is built, or refused for its configuration, or its
sizes cannot be shown. -/
theorem failsOnly_build (w : Workload) (hh : h.Valid) : FailsOnly Fault.Answerable (build w h) :=
  (failsOnly_assemble w hh).bind fun m _ => m.failsOnly_checked.answerable

end MapSpace

end LoopTiling
