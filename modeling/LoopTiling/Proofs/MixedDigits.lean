import LoopTiling.MapSpace
import LoopTiling.Proofs.Product.Trees
import LoopTiling.Proofs.Radix.Words

/-!
# Digits of mixed form in counters, products and mapspaces

A counter, a product and a mapspace encode digits over the sizes of their axes, and their radices are
integers. So integers and words in any mix are encoded by their sum, and the sum is decoded to them again,
if and only if no digit is a word, or the sum and every radix in front of a word lie below `2 ^ 63`.
Otherwise there is a fault or a wrong number.
-/
namespace LoopTiling

open Radix

theorem CounterState.size_run [Text.DigitLimit] (cs : List (Call Value Empty)) :
    (kind.run cs).size = volume (kind.run cs).radices := by
  have hc : kind.run cs = ⟨(reading.run cs).base, volume (reading.run cs).base⟩ := holds.run cs
  rw [hc]

/-- Encoding digits of mixed form is exact within the words only, in every counter that calls have led
to, in every product that is built and in every mapspace that is built. -/
theorem mixed_digits_roundTrip [Text.DigitLimit] :
    (∀ (cs : List (Call Value Empty)) (digits : List Value) (ds : List ℤ),
      AreMixedDigits (CounterState.kind.run cs).radices digits ds →
        MixedRoundTrip (CounterState.kind.run cs).radices digits ds
          ((CounterState.kind.run cs).counter.encode digits) (CounterState.kind.run cs).decode) ∧
    (∀ (members : List Space) (s : Space), Space.ofMembers members = .ok s →
      ∃ sizes, members.mapM Space.size = .ok sizes ∧ s = .product members sizes ∧
        ∀ (digits : List Value) (ds : List ℤ), AreMixedDigits sizes digits ds →
          MixedRoundTrip sizes digits ds (encode (sizes.map Space.number) digits)
            (Space.split sizes)) ∧
    ∀ (w : Workload) (h : Hierarchy) (m : MapSpace), MapSpace.build w h = .ok m →
      ∀ (f o s : Value) (ds : List ℤ), AreMixedDigits m.sizes [f, o, s] ds →
        MixedRoundTrip m.sizes [f, o, s] ds (m.encode f o s) m.split := by
  refine ⟨fun cs digits ds hds => ?_, fun members s hs => ?_, fun w h m _ f o s ds hds => ?_⟩
  · have hdecode : (CounterState.kind.run cs).decode = fun v =>
        Radix.digits (CounterState.kind.run cs).radices <$>
          v.placeIn "mixed-radix" (volume (CounterState.kind.run cs).radices) := by
      rw [← CounterState.size_run]
      rfl
    rw [hdecode]
    exact hds.roundTrip _
  · obtain ⟨sizes, hsizes, -, rfl⟩ := Space.ofMembers_eq_ok.mp hs
    exact ⟨sizes, hsizes, rfl, fun digits ds hds => hds.roundTrip _⟩
  · exact hds.roundTrip _

/-- A counter with an axis that fills most of a word. -/
def sampleWideCounter : CounterState :=
  CounterState.kind.run [.init (.list [.int (2 ^ 62), .int 16])]

theorem mixed_digits_roundTrip_sample :
    (∃ x, sampleWideCounter.counter.encode [.int 5, .word 1] = .ok x ∧ x.IsWhole (2 ^ 62 + 5) ∧
      sampleWideCounter.decode x.toValue = .ok [5, 1]) ∧
    (sampleWideCounter.counter.encode [.int 5, .word 2] = .error (.unsupported .overflow) ∨
      ∃ w, sampleWideCounter.counter.encode [.int 5, .word 2] = .ok (.word w) ∧
        w.toInt ≠ 2 ^ 63 + 5) := by
  have hradices : sampleWideCounter.radices = [2 ^ 62, 16] := by decide +kernel
  have hmixed {k : ℕ} (hk : k < 16) {v : Value} (hv : v.index? = some (k : ℤ)) :
      AreMixedDigits sampleWideCounter.radices [.int 5, v] [5, k] := by
    rw [hradices]
    exact ⟨.cons rfl (.cons hv .nil), .cons (by decide) (.cons (by omega) .nil)⟩
  have hkept := mixed_digits_roundTrip.1 _ _ _ (hmixed (k := 1) (by decide) (v := .word 1) rfl)
  have hlost := mixed_digits_roundTrip.1 _ _ _ (hmixed (k := 2) (by decide) (v := .word 2) rfl)
  rw [← sampleWideCounter, hradices] at hkept hlost
  have hone : digitSum [2 ^ 62, 16] [5, (1 : ℕ)] = 2 ^ 62 + 5 := by decide +kernel
  have htwo : digitSum [2 ^ 62, 16] [5, (2 : ℕ)] = 2 ^ 63 + 5 := by decide +kernel
  refine ⟨hone ▸ hkept.kept fun _ => ⟨by rw [hone]; decide, fun _ => by decide, ?_, trivial⟩,
    htwo ▸ hlost.lost fun hstays => ?_⟩
  · rintro ⟨w, hw⟩
    cases hw
  · have hsmall := (hstays ⟨2, List.mem_cons_of_mem _ List.mem_cons_self⟩).1
    rw [htwo] at hsmall
    exact absurd hsmall (by decide)

/-- Words are encoded to a wrong number where integers of the same value are encoded to their sum. -/
theorem words_encode_wraps :
    AreMixedDigits sampleWideCounter.radices [.word 0, .word 4] [0, 4] ∧
      digitSum sampleWideCounter.radices [0, 4] = 2 ^ 64 ∧
      sampleWideCounter.counter.encode [.int 0, .int 4] = .ok (.int (2 ^ 64)) ∧
      sampleWideCounter.counter.encode [.word 0, .word 4] = .ok (.word 0) := by
  have hradices : sampleWideCounter.radices = [2 ^ 62, 16] := by decide +kernel
  have hcounter : sampleWideCounter.counter = ⟨[2 ^ 62, 16]⟩ := congrArg Counter.mk hradices
  rw [hradices, hcounter]
  refine ⟨⟨.cons rfl (.cons rfl .nil), .cons (by decide) (.cons (by decide) .nil)⟩,
    by decide +kernel, ?_, ?_⟩
  · rfl
  · rfl

end LoopTiling
