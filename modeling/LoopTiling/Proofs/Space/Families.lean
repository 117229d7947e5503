import LoopTiling.Proofs.FactorTable.Values
import LoopTiling.Space.Factors

/-!
# Values given for the dimensions

Bounds and numbers of levels are read for all dimensions from a map whose keys name them, from one
whole number or from a list in canonical order; pins are read from a map and may be left out. A
later entry for a dimension replaces an earlier one.
-/
namespace LoopTiling

def IsLastFor (d : Dim) (es : List (Value × Value)) (v : Value) : Prop :=
  ∃ before key after, es = before ++ (key, v) :: after ∧ key.asDim = .ok d ∧
    ∀ e ∈ after, e.1.asDim ≠ .ok d

/-- Whether a family of values gives a value for a dimension. -/
def Gives (family : Value) (d : Dim) (v : Value) : Prop :=
  match family with
  | .map es => IsLastFor d es v
  | .flag _ | .int _ | .dim _ => v = family
  | _ => ∃ vs, family.items = .ok vs ∧ vs.length = Dim.count ∧ vs[d.index]? = some v

/-- Whether pins of all dimensions give a dimension certain pins, or none. -/
def GivesPins (pins : Value) (d : Dim) (v : Value) : Prop :=
  match pins with
  | .map es => IsLastFor d es v ∨ v = .null ∧ ∀ e ∈ es, e.1.asDim ≠ .ok d
  | _ => v = .null

theorem lastFor?_cons (d : Dim) (e : Dim × Value) (named : List (Dim × Value)) :
    lastFor? d (e :: named) = (lastFor? d named).or (if e.1 = d then some e.2 else none) := by
  obtain ⟨d', v⟩ := e
  rw [lastFor?, List.reverse_cons, List.lookup_append, lastFor?]
  congr 1
  by_cases h : d' = d
  · simp [h]
  · have hne : (d == d') = false := beq_false_of_ne (Ne.symm h)
    simp [List.lookup_cons, hne, h]

theorem forall₂_of_dimEntries {es : List (Value × Value)} {named : List (Dim × Value)}
    (h : dimEntries es = .ok named) :
    List.Forall₂ (fun e n => e.1.asDim = .ok n.1 ∧ n.2 = e.2) es named := by
  refine (mapM_eq_ok.mp h).imp fun e n hen => ?_
  obtain ⟨d, hd, hn⟩ := bind_eq_ok.mp hen
  rw [pure_eq_ok] at hn
  rw [← hn]
  exact ⟨hd, rfl⟩

theorem lastFor?_cases (d : Dim) {es : List (Value × Value)} {named : List (Dim × Value)}
    (h : List.Forall₂ (fun e n => e.1.asDim = .ok n.1 ∧ n.2 = e.2) es named) :
    (∃ v, lastFor? d named = some v ∧ IsLastFor d es v) ∨
      lastFor? d named = none ∧ ∀ e ∈ es, e.1.asDim ≠ .ok d := by
  induction h with
  | nil => exact .inr ⟨rfl, List.forall_mem_nil _⟩
  | @cons e n es named hen _ ih =>
    rw [lastFor?_cons]
    rcases ih with ⟨v, hv, before, key, after, rfl, hkey, hafter⟩ | ⟨hnone, hall⟩
    · rw [hv]
      exact .inl ⟨v, rfl, e :: before, key, after, rfl, hkey, hafter⟩
    · rw [hnone, Option.none_or]
      by_cases hd : n.1 = d
      · rw [if_pos hd]
        exact .inl ⟨n.2, rfl, [], e.1, es, by rw [hen.2]; rfl, hd ▸ hen.1, hall⟩
      · rw [if_neg hd]
        refine .inr ⟨rfl, List.forall_mem_cons.mpr ⟨fun he => hd ?_, hall⟩⟩
        exact Except.ok.inj (hen.1.symm.trans he)

theorem gives_of_items {vs : List Value} {what : String} {values : PerDim Value}
    (h : (match vs with
      | [r, s, p, q, c, k, n] => return ⟨r, s, p, q, c, k, n⟩
      | _ => throw (.perDimLength what vs.length)) = (.ok values : Except Fault (PerDim Value)))
    (d : Dim) : vs.length = Dim.count ∧ vs[d.index]? = some (values.get d) := by
  split at h
  · rw [← pure_eq_ok.mp h]
    exact ⟨rfl, by cases d <;> rfl⟩
  · cases h

/-- What is read as a family of values is what the family gives. -/
theorem gives_of_perDim {what : String} {family : Value} {values : PerDim Value}
    (h : perDim what family = .ok values) (d : Dim) : Gives family d (values.get d) := by
  cases family with
  | map es =>
    obtain ⟨named, hnamed, h⟩ := bind_eq_ok.mp h
    rw [refuse_eq_ok, pure_eq_ok] at h
    obtain ⟨hmissing, rfl⟩ := h
    rw [PerDim.get_ofFn]
    rcases lastFor?_cases d (forall₂_of_dimEntries hnamed) with ⟨v, hv, hlast⟩ | ⟨hnone, -⟩
    · rw [hv]
      exact hlast
    · have hmem : d ∈ Dim.all.filter fun d => (lastFor? d named).isNone :=
        List.mem_filter.mpr ⟨d.mem_all, by rw [hnone]; rfl⟩
      rw [Bool.not_eq_true, Bool.not_eq_false', List.isEmpty_iff] at hmissing
      rw [hmissing] at hmem
      cases hmem
  | flag | int | dim =>
    rw [← Except.ok.inj h, PerDim.get_ofFn]
    rfl
  | _ =>
    obtain ⟨vs, hvs, h⟩ := bind_eq_ok.mp h
    exact ⟨vs, hvs, gives_of_items h d⟩

theorem readPins_eq (pins : Value) : FactorSpace.readPins pins = do
    let es ← FactorTable.givenPins pins
    let named ← dimEntries es
    return .ofFn fun d => (lastFor? d named).getD .null := by
  unfold FactorSpace.readPins FactorTable.givenPins
  cases pins.truthy <;> rfl

theorem givesPins_of_readPins {pins : Value} {values : PerDim Value}
    (h : FactorSpace.readPins pins = .ok values) (d : Dim) : GivesPins pins d (values.get d) := by
  simp only [readPins_eq, bind_eq_ok, pure_eq_ok] at h
  obtain ⟨es, hes, named, hnamed, rfl⟩ := h
  rw [PerDim.get_ofFn]
  have hcases := lastFor?_cases d (forall₂_of_dimEntries hnamed)
  rcases FactorTable.givenPins_eq_ok hes with rfl | ⟨rfl, hnone⟩
  · rcases hcases with ⟨v, hv, hlast⟩ | ⟨hnone, hall⟩
    · rw [hv]
      exact .inl hlast
    · rw [hnone]
      exact .inr ⟨rfl, hall⟩
  · cases hnamed
    cases pins with
    | map fs => exact absurd rfl (hnone fs)
    | _ => rfl

end LoopTiling
