import LoopTiling.Proofs.FactorTable.Tabulate

/-!
# The factors that a level takes

To ask for a factor at a level that has no pin is to pin it there: a free level takes a factor exactly
if that factor and the pins divide the bound, and make it where no other level is free. So a level takes
the factor one only, exactly if it is pinned to one, or free while the pins make the whole bound.
-/
namespace LoopTiling.FactorTable

variable {bound levelCount : ℕ} {pins : List (ℕ × ℕ)} {k f : ℕ}

theorem isFactorization_cons {fs : List ℕ} : IsFactorization bound levelCount ((k, f) :: pins) fs ↔
    IsFactorization bound levelCount pins fs ∧ fs[k]? = some f := by
  constructor
  · rintro ⟨hlength, hpos, hprod, hpinned⟩
    rw [List.forall_mem_cons] at hpinned
    exact ⟨⟨hlength, hpos, hprod, hpinned.2⟩, hpinned.1⟩
  · rintro ⟨⟨hlength, hpos, hprod, hpinned⟩, hk⟩
    exact ⟨hlength, hpos, hprod, List.forall_mem_cons.mpr ⟨hk, hpinned⟩⟩

theorem PinsFit.cons (hp : PinsFit levelCount pins) (hk : k < levelCount)
    (hfree : pins.lookup k = none) (hf : 0 < f) : PinsFit levelCount ((k, f) :: pins) := by
  refine ⟨?_, List.forall_mem_cons.mpr ⟨hk, hp.level_lt⟩, List.forall_mem_cons.mpr ⟨hf, hp.pos⟩⟩
  rw [List.map_cons, List.nodup_cons]
  refine ⟨fun hmem => ?_, hp.nodup⟩
  obtain ⟨⟨k', f'⟩, hpin, rfl⟩ := List.mem_map.mp hmem
  rw [(lookup_eq_some_iff_mem hp.nodup).mpr hpin] at hfree
  cases hfree

/-- A level that is not pinned takes a factor exactly if the factor can be pinned there too. -/
theorem exists_factor_iff (hb : 0 < bound) (hp : PinsFit levelCount pins) (hk : k < levelCount)
    (hfree : pins.lookup k = none) (hf : 0 < f) :
    (∃ fs, IsFactorization bound levelCount pins fs ∧ fs[k]? = some f) ↔
      f * pinProduct pins ∣ bound ∧
        (pins.length + 1 = levelCount → f * pinProduct pins = bound) := by
  simp only [← isFactorization_cons]
  exact exists_isFactorization_iff hb (hp.cons hk hfree hf)

/-- A level takes the factor one only, exactly if it is pinned to one, or is free while the pins make the
whole bound. -/
theorem forall_factor_eq_one_iff (hb : 0 < bound) (hp : PinsFit levelCount pins)
    (hsome : ∃ fs, IsFactorization bound levelCount pins fs) (hk : k < levelCount) :
    (∀ fs, IsFactorization bound levelCount pins fs → fs[k]? = some 1) ↔
      pins.lookup k = some 1 ∨ pins.lookup k = none ∧ pinProduct pins = bound := by
  obtain ⟨fs, hfs⟩ := hsome
  cases hpin : pins.lookup k with
  | some g =>
    have hmem := (lookup_eq_some_iff_mem hp.nodup).mp hpin
    simp only [Option.some.injEq, reduceCtorEq, false_and, or_false]
    constructor
    · intro hall
      exact Option.some.inj ((hfs.pinned _ hmem).symm.trans (hall fs hfs))
    · rintro rfl fs' hfs'
      exact hfs'.pinned _ hmem
  | none =>
    have hdvd := ((exists_isFactorization_iff hb hp).mp ⟨fs, hfs⟩).1
    simp only [reduceCtorEq, false_or, true_and]
    constructor
    · intro hall
      -- The level can take all that the pins leave of the bound.
      have hrest : bound / pinProduct pins * pinProduct pins = bound := Nat.div_mul_cancel hdvd
      obtain ⟨fs', hfs', hget⟩ := (exists_factor_iff hb hp hk hpin (residual_pos hb hp.pos hdvd)).mpr
        ⟨hrest.dvd, fun _ => hrest⟩
      rw [hall fs' hfs', Option.some.injEq] at hget
      rwa [← hget, Nat.one_mul] at hrest
    · intro hwhole fs' hfs'
      have hk' : k < fs'.length := hfs'.length ▸ hk
      have hget : fs'[k]? = some fs'[k] := List.getElem?_eq_getElem hk'
      have hpos : 0 < fs'[k] := hfs'.pos _ (List.getElem_mem hk')
      have hle := Nat.le_of_dvd hb ((exists_factor_iff hb hp hk hpin hpos).mp ⟨fs', hfs', hget⟩).1
      rw [hwhole] at hle
      have hone : fs'[k] = 1 := by
        have := Nat.le_of_mul_le_mul_right (hle.trans_eq (Nat.one_mul bound).symm) hb
        omega
      rw [hget, hone]

end LoopTiling.FactorTable
