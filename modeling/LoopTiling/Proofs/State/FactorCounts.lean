import LoopTiling.Proofs.FactorTable.Counting
import LoopTiling.Proofs.Product.Members

/-!
# Sizes in closed form

The size of a factor table is the number of ways to share the primes of what the pins leave of the bound
among the levels without a pin. The size of a space of factors is the product of these numbers over the
dimensions, whatever calls have led to it.
-/
namespace LoopTiling

namespace FactorTable

/-- The number of ways to share the primes of the residual among the free levels. -/
def ways (t : FactorTable) : ℕ :=
  waysToShare (Divisor.primeFactors t.residual) t.freeLevels.length

/-- Whether a table is made of given values and its size has the closed form over the primes that the
prime search gives for its residual. -/
structure CountedFrom (bound levelCount pinned : Value) (t : FactorTable) : Prop where
  readsFrom : ReadsFrom bound levelCount pinned t
  primes : Divisor.primeFactorsOf (.int t.residual) =
    .ok ((Divisor.primeFactors t.residual).map fun (p : ℕ) => .int p)
  size : t.size = t.ways

theorem countedFrom_of_ofValues [Text.DigitLimit] {bound levelCount pinned : Value} {t : FactorTable}
    (hd : pinned.KeysDiffer) (h : ofValues bound levelCount pinned = .ok t) :
    CountedFrom bound levelCount pinned t := by
  obtain ⟨hsound, hreads⟩ := sound_of_ofValues hd h
  exact ⟨hreads, Divisor.primeFactorsOf_natCast _, hsound.size_eq⟩

end FactorTable

namespace FactorState

theorem size_ofTables_eq_prod {tables : PerDim FactorTable} (h : ∀ d, (tables.get d).Sound) :
    (ofTables tables).size = (Dim.all.map fun d => (tables.get d).ways).prod := by
  rw [size_ofTables, FactorSpace.sizes_eq, Radix.volume_eq_prod]
  exact congrArg List.prod (List.map_congr_left fun d _ => (h d).size_eq)

/-- Every accepted table has the size in closed form. So does every space of factors, as the product over
the dimensions: when a call that sets it up has returned, and after any run of calls that has given it
tables. -/
theorem size_eq_prod_ways [Text.DigitLimit] :
    (∀ (bound levelCount pinned : Value) (t : FactorTable), pinned.KeysDiffer →
      FactorTable.ofValues bound levelCount pinned = .ok t →
        FactorTable.CountedFrom bound levelCount pinned t) ∧
    (∀ (bounds levelCounts pins : Value) (s s' : FactorState) (journal : Journal), pins.PinsDiffer →
      init bounds levelCounts pins s = .ok journal s' →
        ∃ (bs ls ps : PerDim Value) (tables : PerDim FactorTable), s'.tables = some tables ∧
          (∀ d, Gives bounds d (bs.get d) ∧ Gives levelCounts d (ls.get d) ∧
            GivesPins pins d (ps.get d) ∧
            FactorTable.CountedFrom (bs.get d) (ls.get d) (ps.get d) (tables.get d)) ∧
          s'.size = (Dim.all.map fun d => (tables.get d).ways).prod) ∧
    ∀ (cs : List (Call Pinned Empty)) (tables : PerDim FactorTable),
      (kind.run cs).tables = some tables →
        (kind.run cs).size = (Dim.all.map fun d => (tables.get d).ways).prod := by
  refine ⟨fun bound levelCount pinned t => FactorTable.countedFrom_of_ofValues, ?_, ?_⟩
  · intro bounds levelCounts pins s s' journal hpins hinit
    obtain ⟨tables, htables, rfl⟩ := eq_ofTables_of_call_init ⟨bounds, levelCounts, pins⟩ hinit
    obtain ⟨bs, ls, ps, hread⟩ := ofValues_of_readTables htables
    refine ⟨bs, ls, ps, tables, rfl, fun d => ?_,
      size_ofTables_eq_prod (sound_of_readTables hpins htables)⟩
    obtain ⟨hbounds, hcounts, hpinned, htable⟩ := hread d
    exact ⟨hbounds, hcounts, hpinned,
      FactorTable.countedFrom_of_ofValues (keysDiffer_of_givesPins hpins hpinned) htable⟩
  · intro cs tables htables
    rcases run_cases cs with hfresh | ⟨tables', hrun, hsound⟩
    · rw [hfresh] at htables
      cases htables
    · rw [hrun] at htables ⊢
      obtain rfl : tables' = tables := Option.some.inj htables
      exact size_ofTables_eq_prod hsound

/-- A bound of 360 with one of three levels pinned to two, and the sample space of factors. -/
theorem size_eq_prod_ways_sample :
    (∃ t, FactorTable.ofValues (.int 360) (.int 3) (.map [(.int 1, .int 2)]) = .ok t ∧
      t.size = t.ways ∧ t.ways = (3 : ℕ).choose 1 * (3 : ℕ).choose 1 * (2 : ℕ).choose 1) ∧
    ∃ journal s tables, init sampleBounds sampleCounts samplePins {} = .ok journal s ∧
      s.tables = some tables ∧ s.size = (Dim.all.map fun d => (tables.get d).ways).prod ∧
      s.size = 18 := by
  obtain ⟨htable, hinit, -⟩ := size_eq_prod_ways
  constructor
  · have hways : ((FactorTable.ofValues (.int 360) (.int 3) (.map [(.int 1, .int 2)])).toOption.map
        FactorTable.ways) = some 18 := by
      decide +kernel
    obtain ⟨t, ht, hw⟩ := Option.map_eq_some_iff.mp hways
    have hkeys : (Value.map [(.int 1, .int 2)]).KeysDiffer := by
      rintro _ ⟨⟩
      exact List.pairwise_singleton _ _
    exact ⟨t, eq_ok_of_toOption ht, (htable _ _ _ t hkeys (eq_ok_of_toOption ht)).size, hw⟩
  · have hsize : (match init sampleBounds sampleCounts samplePins {} with
        | .ok _ s => some s.size
        | .error _ _ => none) = some 18 := by
      decide +kernel
    cases hcall : init sampleBounds sampleCounts samplePins {} with
    | error fault s =>
      rw [hcall] at hsize
      cases hsize
    | ok journal s =>
      rw [hcall] at hsize
      obtain ⟨_, _, _, tables, htables, -, hprod⟩ :=
        hinit _ _ _ _ _ _ pinsDiffer_samplePins hcall
      exact ⟨journal, s, tables, rfl, htables, hprod, Option.some.inj hsize⟩

end FactorState

end LoopTiling
