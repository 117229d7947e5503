import LoopTiling.Proofs.Outcome
import LoopTiling.Proofs.Printing

/-!
# Which faults a computation may end in

A computation whose steps fail with certain faults only fails with these only. What is not shown fails
with the fault of the value itself, and where nothing stands against showing it the computation comes to
a result. A command answers the faults of a configuration, of a missing file and of an index, as long as
their sentences can be shown.
-/
namespace LoopTiling

variable {α β : Type} {P Q : Fault → Prop}

/-- Whether a computation fails with certain faults only. -/
def FailsOnly (P : Fault → Prop) (x : Except Fault α) : Prop := ∀ fault, x = .error fault → P fault

/-- The fault of what cannot be shown, if something stands against showing it. -/
def Fault.Unshown (shows : Prop) (fault : Fault) : Prop := ¬ shows ∧ fault = .unsupported .value

theorem failsOnly_ok (a : α) : FailsOnly P (.ok a : Except Fault α) := nofun

theorem failsOnly_error {fault : Fault} (h : P fault) : FailsOnly P (.error fault : Except Fault α) :=
  fun _ he => Except.error.inj he ▸ h

namespace FailsOnly

theorem mono {x : Except Fault α} (h : FailsOnly P x) (hPQ : ∀ fault, P fault → Q fault) :
    FailsOnly Q x := fun fault he => hPQ fault (h fault he)

theorem bind {x : Except Fault α} {f : α → Except Fault β} (h : FailsOnly P x)
    (hf : ∀ a, x = .ok a → FailsOnly P (f a)) : FailsOnly P (x >>= f) := by
  intro fault he
  rcases bind_eq_error.mp he with he | ⟨a, ha, he⟩
  · exact h fault he
  · exact hf a ha fault he

theorem map {x : Except Fault α} (h : FailsOnly P x) (f : α → β) : FailsOnly P (f <$> x) :=
  fun fault he => h fault (map_eq_error.mp he)

theorem mapM {f : α → Except Fault β} {xs : List α} (h : ∀ x ∈ xs, FailsOnly P (f x)) :
    FailsOnly P (xs.mapM f) := by
  intro fault he
  rcases mapM_cases f xs with ⟨ys, hys⟩ | ⟨before, x, after, e, rfl, hx, hall, -⟩
  · rw [hys] at he
    cases he
  · rw [hall, Except.error.injEq] at he
    exact h x (List.mem_append_right _ List.mem_cons_self) fault (he ▸ hx)

theorem ofFnM {f : Dim → Except Fault α} (h : ∀ d, FailsOnly P (f d)) :
    FailsOnly P (PerDim.ofFnM f) := by
  intro fault he
  rcases PerDim.ofFnM_cases f with ⟨v, hv⟩ | ⟨d, e, hd, hall, -⟩
  · rw [hv] at he
    cases he
  · rw [hall, Except.error.injEq] at he
    exact h d fault (he ▸ hd)

/-- A refusal in front of a computation. -/
theorem refuse {c : Prop} [Decidable c] {fault : Fault} {f : β → Except Fault α}
    {rest : Except Fault α} (h : P fault) (hrest : ¬ c → FailsOnly P rest) :
    FailsOnly P (if c then throw fault >>= f else rest) := by
  split
  · exact failsOnly_error h
  · exact hrest ‹_›

theorem ite {c : Prop} [Decidable c] {x y : Except Fault α} (hx : c → FailsOnly P x)
    (hy : ¬ c → FailsOnly P y) : FailsOnly P (if c then x else y) := by
  split
  · exact hx ‹_›
  · exact hy ‹_›

/-- A computation that fails with no fault comes to a result. -/
theorem exists_ok {x : Except Fault α} (h : FailsOnly P x) (hP : ∀ fault, ¬ P fault) :
    ∃ a, x = .ok a := by
  cases x with
  | ok a => exact ⟨a, rfl⟩
  | error fault => exact absurd (h fault rfl) (hP fault)

theorem exists_ok_of_shows {shows : Prop} {x : Except Fault α} (h : FailsOnly (Fault.Unshown shows) x)
    (hshows : shows) : ∃ a, x = .ok a := h.exists_ok fun _ hf => hf.1 hshows

end FailsOnly

theorem failsOnly_shown {shows : Prop} {part : Option String} (h : shows → part.isSome) :
    FailsOnly (Fault.Unshown shows) (shown part) := by
  cases part with
  | some s => exact failsOnly_ok s
  | none => exact failsOnly_error ⟨fun hs => Bool.false_ne_true (h hs), rfl⟩

variable [limit : Text.DigitLimit]

namespace Fault

/-- The fault of a whole number with too many digits, if there is such a limit. -/
def OfLimit (fault : Fault) : Prop := fault.Unshown (limit.most? = none)

/-- Whether a command answers a fault, or would if its sentence could be shown. -/
def Answerable (fault : Fault) : Prop :=
  fault.causeKind = .configuration ∨ fault.causeKind = .missingFile ∨ fault.causeKind = .index ∨
    fault.OfLimit

end Fault

theorem failsOnly_refusal {fault : Fault} (h : fault.causeKind = .configuration) :
    FailsOnly Fault.Answerable (.error fault : Except Fault α) := failsOnly_error (.inl h)

theorem FailsOnly.answerable {x : Except Fault α} (h : FailsOnly Fault.OfLimit x) :
    FailsOnly Fault.Answerable x := h.mono fun _ hf => .inr (.inr (.inr hf))

theorem failsOnly_text (v : Value) : FailsOnly Fault.OfLimit (shown v.text?) :=
  failsOnly_shown fun h => Value.isSome_text? h v

theorem failsOnly_quoted (v : Value) : FailsOnly Fault.OfLimit (shown v.quoted?) :=
  failsOnly_shown fun h => Value.isSome_quoted? h v

theorem failsOnly_numeral (n : Numeral) : FailsOnly Fault.OfLimit (shown n.text?) :=
  failsOnly_shown fun h => n.isSome_text? h

theorem failsOnly_decimal (n : Int) : FailsOnly Fault.OfLimit (shown (Text.decimal? n)) :=
  failsOnly_shown fun h => Text.isSome_decimal? h n

theorem failsOnly_grouped (n : Int) : FailsOnly Fault.OfLimit (shown (Text.grouped? n)) :=
  failsOnly_shown fun h => (Text.isSome_grouped?_iff n).mpr (Text.isShort_of_unlimited h n)

theorem failsOnly_count (n : ℕ) : FailsOnly Fault.OfLimit (shown (Decimal.count? n)) :=
  failsOnly_shown fun h => (Decimal.isSome_count?_iff n).mpr (Text.isShort_of_unlimited h n)

end LoopTiling
