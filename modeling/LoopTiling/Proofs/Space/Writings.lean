import LoopTiling.Proofs.FactorTable.Reordered
import LoopTiling.Proofs.Space.Factors
import LoopTiling.Proofs.Space.Families
import LoopTiling.Proofs.Spelling

/-!
# The ways to write values for all dimensions

A value for each dimension is written as a map whose keys spell the dimensions, as a list in canonical
order, or as one integer that all dimensions have. Pins are written as a map whose keys spell
dimensions, and may be left out where there are none. Whichever way is taken, the same values are read.
-/
namespace LoopTiling

/-- Whether a value is an integer, a truth value being one. -/
def Value.IsScalar : Value → Prop
  | flag _ | int _ | dim _ => True
  | _ => False

/-- The ways to write a value for each dimension. -/
inductive WritesValues (values : Dim → Value) : Value → Prop
  /-- The keys spell all dimensions, in any order. -/
  | map {es : List (Value × Value)}
      (entry : ∀ e ∈ es, ∃ d, e.1.Spells d ∧ e.2.SameInteger (values d))
      (every : ∀ d, ∃ e ∈ es, e.1.Spells d) : WritesValues values (.map es)
  | list {vs : List Value} (items : List.Forall₂ (fun d v => v.SameInteger (values d)) Dim.all vs) :
      WritesValues values (.list vs)
  | tuple {vs : List Value} (items : List.Forall₂ (fun d v => v.SameInteger (values d)) Dim.all vs) :
      WritesValues values (.tuple vs)
  /-- All dimensions have one value. -/
  | scalar {v : Value} (scalar : v.IsScalar) (same : ∀ d, v.SameInteger (values d)) :
      WritesValues values v

/-- The ways to write the pins of one dimension. -/
inductive WritesPins (pins : List (Value × Value)) : Value → Prop
  | map {es : List (Value × Value)} (same : FactorTable.SamePins es pins) : WritesPins pins (.map es)
  | none {v : Value} (falsy : v.truthy = false) (empty : pins = []) : WritesPins pins v

/-- The ways to write the pins of all dimensions. -/
inductive WritesAllPins (pins : Dim → List (Value × Value)) : Value → Prop
  /-- The keys spell dimensions, in any order, and among them all that have pins. -/
  | map {es : List (Value × Value)} (entry : ∀ e ∈ es, ∃ d, e.1.Spells d ∧ WritesPins (pins d) e.2)
      (rest : ∀ d, pins d = [] ∨ ∃ e ∈ es, e.1.Spells d) : WritesAllPins pins (.map es)
  | none {v : Value} (falsy : v.truthy = false) (empty : ∀ d, pins d = []) : WritesAllPins pins v

theorem writesValues_items (values : Dim → Value) :
    List.Forall₂ (fun d v => v.SameInteger (values d)) Dim.all (Dim.all.map values) := by
  rw [List.forall₂_map_right_iff, List.forall₂_same]
  exact fun _ _ => .inl rfl

/-- A map whose keys spell the dimensions one after the other, in whatever order. -/
theorem writesValues_map {values : Dim → Value} {ds : List Dim} {es : List (Value × Value)}
    (h : List.Forall₂ (fun d e => e.1.Spells d ∧ e.2.SameInteger (values d)) ds es)
    (hall : ∀ d, d ∈ ds) : WritesValues values (.map es) := by
  refine .map (fun e he => ?_) fun d => ?_
  · obtain ⟨d, -, hd⟩ := exists_of_forall₂ h.flip he
    exact ⟨d, hd⟩
  · obtain ⟨e, he, hd⟩ := exists_of_forall₂ h (hall d)
    exact ⟨e, he, hd.1⟩

/-- The entries of a map whose keys spell dimensions have for each dimension what its key gives it, or
nothing if no key spells it. -/
theorem exists_dimEntries {P : Dim → Value → Prop} {es : List (Value × Value)}
    (h : ∀ e ∈ es, ∃ d, e.1.Spells d ∧ P d e.2) :
    ∃ named, dimEntries es = .ok named ∧ ∀ d, (∃ v, lastFor? d named = some v ∧ P d v) ∨
      lastFor? d named = none ∧ ∀ e ∈ es, ¬ e.1.Spells d := by
  have hnamed : ∃ named, dimEntries es = .ok named := by
    refine exists_mapM_eq_ok.mpr fun e he => ?_
    obtain ⟨d, hd, -⟩ := h e he
    rw [Value.asDim_eq_ok_iff.mpr hd]
    exact ⟨(d, e.2), rfl⟩
  obtain ⟨named, hnamed⟩ := hnamed
  refine ⟨named, hnamed, fun d => ?_⟩
  rcases lastFor?_cases d (forall₂_of_dimEntries hnamed) with ⟨v, hv, hlast⟩ | ⟨hnone, hall⟩
  · obtain ⟨before, key, after, rfl, hkey, -⟩ := hlast
    obtain ⟨d', hspells, hP⟩ := h (key, v) (List.mem_append_right before List.mem_cons_self)
    rw [← Value.asDim_eq_ok_iff, hkey, Except.ok.injEq] at hspells
    exact .inl ⟨v, hv, hspells ▸ hP⟩
  · exact .inr ⟨hnone, fun e he hd => hall e he (Value.asDim_eq_ok_iff.mpr hd)⟩

theorem exists_perDim_items {values : Dim → Value} {vs : List Value}
    (h : List.Forall₂ (fun d v => v.SameInteger (values d)) Dim.all vs) :
    ∃ read : PerDim Value, read.toList = vs ∧ ∀ d, (read.get d).SameInteger (values d) := by
  have hlen : vs.length = Dim.count := h.length_eq.symm
  match vs, hlen with
  | [r, s, p, q, c, k, n], _ =>
    have hall := PerDim.forall₂_toList (S := fun d => {v | v.SameInteger (values d)})
      (v := ⟨r, s, p, q, c, k, n⟩)
    exact ⟨⟨r, s, p, q, c, k, n⟩, rfl, hall.mp h⟩

theorem perDim_list (what : String) (read : PerDim Value) :
    perDim what (.list read.toList) = .ok read := rfl

theorem perDim_tuple (what : String) (read : PerDim Value) :
    perDim what (.tuple read.toList) = .ok read := rfl

/-- A family of values is read from each of its writings. -/
theorem exists_perDim {values : Dim → Value} {v : Value} (what : String) (h : WritesValues values v) :
    ∃ read, perDim what v = .ok read ∧ ∀ d, (read.get d).SameInteger (values d) := by
  cases h with
  | @map es entry every =>
    obtain ⟨named, hnamed, hlast⟩ := exists_dimEntries
      (P := fun d v => v.SameInteger (values d)) entry
    have hsome (d : Dim) : ∃ v, lastFor? d named = some v ∧ v.SameInteger (values d) := by
      rcases hlast d with hv | ⟨-, hnone⟩
      · exact hv
      · obtain ⟨e, he, hd⟩ := every d
        exact absurd hd (hnone e he)
    refine ⟨.ofFn fun d => (lastFor? d named).getD .null, ?_, fun d => ?_⟩
    · have hmissing : (Dim.all.filter fun d => (lastFor? d named).isNone) = [] := by
        refine List.filter_eq_nil_iff.mpr fun d _ => ?_
        obtain ⟨v, hv, -⟩ := hsome d
        simp [hv]
      simp only [perDim, hnamed, ok_bind, hmissing]
      rfl
    · obtain ⟨v, hv, hsame⟩ := hsome d
      rw [PerDim.get_ofFn, hv]
      exact hsame
  | list items =>
    obtain ⟨read, rfl, hread⟩ := exists_perDim_items items
    exact ⟨read, perDim_list what read, hread⟩
  | tuple items =>
    obtain ⟨read, rfl, hread⟩ := exists_perDim_items items
    exact ⟨read, perDim_tuple what read, hread⟩
  | scalar scalar same =>
    refine ⟨.ofFn fun _ => v, ?_, fun d => ?_⟩
    · cases v with
      | flag | int | dim => rfl
      | _ => cases scalar
    · rw [PerDim.get_ofFn]
      exact same d

theorem exists_givenPins {pins : List (Value × Value)} {v : Value} (h : WritesPins pins v) :
    ∃ es, FactorTable.givenPins v = .ok es ∧ FactorTable.SamePins es pins := by
  cases h with
  | map same => exact ⟨_, FactorTable.givenPins_map _, same⟩
  | none falsy empty =>
    refine ⟨[], ?_, empty ▸ .refl []⟩
    rw [FactorTable.givenPins, falsy]
    rfl

/-- The pins of all dimensions are read from each of their writings. -/
theorem exists_readPins {pins : Dim → List (Value × Value)} {v : Value} (h : WritesAllPins pins v) :
    ∃ read, FactorSpace.readPins v = .ok read ∧ ∀ d, WritesPins (pins d) (read.get d) := by
  simp only [readPins_eq]
  cases h with
  | @map es entry rest =>
    obtain ⟨named, hnamed, hlast⟩ := exists_dimEntries entry
    refine ⟨.ofFn fun d => (lastFor? d named).getD .null, ?_, fun d => ?_⟩
    · rw [FactorTable.givenPins_map, ok_bind, hnamed]
      rfl
    · rw [PerDim.get_ofFn]
      rcases hlast d with ⟨v, hv, hpins⟩ | ⟨hnone, hall⟩
      · rw [hv]
        exact hpins
      · rw [hnone]
        refine .none rfl ((rest d).resolve_right ?_)
        rintro ⟨e, he, hd⟩
        exact hall e he hd
  | none falsy empty =>
    refine ⟨.ofFn fun _ => .null, ?_, fun d => ?_⟩
    · rw [FactorTable.givenPins, falsy]
      rfl
    · rw [PerDim.get_ofFn]
      exact .none rfl (empty d)

end LoopTiling
