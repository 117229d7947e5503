import Mathlib.Algebra.Order.BigOperators.GroupWithZero.List
import Mathlib.Algebra.Order.Ring.Nat
import Mathlib.Order.Lattice.Nat
import LoopTiling.Proofs.FixedCuts
import LoopTiling.Proofs.MapSpace.Redundancy

/-!
# Pinned splits under pruning

A split that the user pins is taken as it is, also where pruning puts the unit dimensions in front of it.
The numbers of instances of such a level are then the same with and without pruning if the cut is kept
(`CutKept`), and if every other dimension can have a factor above one there, only then.
-/
namespace LoopTiling

open MapSpace

theorem UnitDims.prod_take_lt {α : Type} {f : α → ℕ} {xs : List α} (hf : ∀ x ∈ xs, 1 < f x) {c n : ℕ}
    (hcn : c < n) (hn : n ≤ xs.length) : ((xs.take c).map f).prod < ((xs.take n).map f).prod := by
  obtain ⟨m, rfl⟩ : ∃ m, n = c + (m + 1) := ⟨n - c - 1, by omega⟩
  have hpos (k : ℕ) (ys : List α) (hys : ∀ y ∈ ys, 1 < f y) : 0 < ((ys.take k).map f).prod :=
    List.prod_pos fun v hv => by
      obtain ⟨y, hy, rfl⟩ := List.mem_map.mp hv
      exact Nat.zero_lt_of_lt (hys y (List.mem_of_mem_take hy))
  have hrest : ∀ x ∈ xs.drop c, 1 < f x := fun x hx => hf x (List.mem_of_mem_drop hx)
  rw [List.take_add, List.map_append, List.prod_append]
  -- What lies between the two places is not empty, so its product is above one.
  cases hdrop : xs.drop c with
  | nil => exact absurd (List.drop_eq_nil_iff.mp hdrop) (by omega)
  | cons y ys =>
    rw [hdrop, List.forall_mem_cons] at hrest
    rw [List.take_succ_cons, List.map_cons, List.prod_cons]
    have hone : 1 < f y * ((ys.take m).map f).prod :=
      Nat.lt_of_lt_of_le hrest.1 (Nat.le_mul_of_pos_right _ (hpos m ys hrest.2))
    exact (Nat.lt_mul_iff_one_lt_right (hpos c xs hf)).mpr hone

namespace Plan

variable {w : Workload} {h h' : Hierarchy} {p p' : Plan} {e : Level × ℕ}

/-- The factors of a place and the numbers of instances along X and Y. -/
def triple (p : Plan) (k : ℕ) : Value × Product × Product :=
  (factorsOfLevel p.factors k, .number (.int (p.instances k).1), .number (.int (p.instances k).2))

/-- A plan with other orders, with the pinned splits and else all dimensions on X. -/
def reorder (levels : List Level) (f : Level → List Dim → List Dim) (p : Plan) : Plan where
  factors := p.factors
  order k := (levels[k]?.map fun l => f l (p.order k)).getD []
  split k := (levels[k]?.bind Level.split).getD (.plain Dim.count)

theorem order_reorder {levels : List Level} (f : Level → List Dim → List Dim)
    (he : e ∈ levels.zipIdx) : (p.reorder levels f).order e.2 = f e.1 (p.order e.2) := by
  simp only [reorder, List.mem_zipIdx_iff_getElem?.mp he]
  rfl

theorem split_reorder {levels : List Level} (f : Level → List Dim → List Dim)
    (he : e ∈ levels.zipIdx) : (p.reorder levels f).split e.2 =
      e.1.split.getD (.plain Dim.count) := by
  simp only [reorder, List.mem_zipIdx_iff_getElem?.mp he]
  rfl

theorem Fits.reorder (hlevels : h.levels = h'.levels) (hp : p.Fits w h)
    {f : Level → List Dim → List Dim}
    (hf : ∀ l ∈ h'.levels, ∀ o, OrderFits w h l o → OrderFits w h' l (f l o)) :
    (p.reorder h'.levels f).Fits w h' := by
  refine ⟨fun d => (tiles_of_levels_eq hlevels).mp (hp.factors d), fun e he => ?_, fun e he => ?_⟩
  · rw [order_reorder f he]
    exact hf e.1 (mem_of_mem_zipIdx he) _ (hp.order e (hlevels ▸ he))
  · rw [split_reorder f (List.mem_filter.mp he).1, SplitFits]
    cases e.1.split with
    | some split => rfl
    | none =>
      exact ⟨Dim.count, rfl, by exact_mod_cast length_prunedAt_le w h' e.1, Int.le_refl _⟩

theorem Fits.split_eq (hp : p.Fits w h) (he : e ∈ h.spatialLevels) {split : Numeral}
    (hsplit : e.1.split = some split) : p.split e.2 = split := by
  have hfits := hp.split e he
  rw [SplitFits, hsplit] at hfits
  exact hfits

theorem Fits.cut_eq (hp : p.Fits w h) (he : e ∈ h.spatialLevels) {split : Numeral}
    (hsplit : e.1.split = some split) : p.cut e.2 = split.toInt.toNat := by
  rw [cut, hp.split_eq he hsplit]

theorem Fits.factorAt_eq_one (hp : p.Fits w h) (he : e ∈ h.levels.zipIdx) (d : Dim)
    (hd : isUnit w e.1 d) : p.factorAt e.2 d = 1 := (hp.factors d).getD_eq_one he hd

theorem factorAt_eq_of_factorsOfLevel {k : ℕ}
    (he : factorsOfLevel p.factors k = factorsOfLevel p'.factors k) :
    p.factorAt k = p'.factorAt k := by
  simp only [factorsOfLevel, Value.map.injEq, List.map_inj_left, Prod.mk.injEq, true_and,
    Value.int.injEq, Nat.cast_inj] at he
  exact funext fun d => he d (Dim.mem_all d)

theorem triple_eq_of_factors {k : ℕ} (hfactors : p.factors = p'.factors)
    (hinstances : p.instances k = p'.instances k) : p.triple k = p'.triple k := by
  rw [triple, triple, hfactors, hinstances]

/-- The product of the factors of the first dimensions of an order, the unit ones left out. -/
def productOf (p : Plan) (unit : Dim → Bool) (k n : ℕ) : ℕ :=
  ((((p.order k).filter fun d => !unit d).take n).map (p.factorAt k)).prod

theorem Fits.instances_fst (hp : p.Fits w h) (he : e ∈ h.levels.zipIdx) {n : ℕ}
    (htake : ((p.order e.2).take (p.cut e.2)).filter (fun d => !isUnit w e.1 d) =
      ((p.order e.2).filter fun d => !isUnit w e.1 d).take n) :
    (p.instances e.2).1 = p.productOf (isUnit w e.1) e.2 n := by
  have hone : ∀ d, (!isUnit w e.1 d) = false → p.factorAt e.2 d = 1 :=
    fun d hd => hp.factorAt_eq_one he d (by simpa using hd)
  rw [instances, productOf, UnitDims.prod_map_filter hone, htake]

end Plan

namespace MapSpace

variable [Text.DigitLimit] {w : Workload} {h : Hierarchy}

/-- The factors of a level in the mapping that an index names, and its numbers of instances along X and
Y. -/
def instancesAt (m : MapSpace) (k i : ℕ) : Except Fault (Value × Product × Product) := do
  let mapping ← m.decode (.int i)
  let bounds ← mapping.loopBounds.part (.int k)
  return (bounds, ← mapping.fanout (.int k))

/-- The factors and numbers of instances that a level can have in a mapspace. -/
def instanceSet (m : MapSpace) (k : ℕ) : Set (Value × Product × Product) :=
  {t | ∃ i < m.size, m.instancesAt k i = .ok t}

theorem exists_index_of_plan (ha : Assembles w h) {p : Plan} (hp : p.Fits w h) :
    ∃ i < (layout w h).size, ∃ mp, (layout w h).decode (.int i) = .ok mp ∧ mp.Follows h p := by
  obtain ⟨i, hi, hassign⟩ := (bijOn_assignmentOf ha).surjOn hp.isFor
  refine ⟨i, hi, _, decode_layout ha hi, ?_⟩
  rw [Mapping.Follows, ← hassign]
  rfl

variable {e : Level × ℕ} {split : Numeral}

theorem instancesAt_of_follows (ha : Assembles w h) (he : e ∈ h.spatialLevels)
    (hsplit : e.1.split = some split) {p : Plan} (hp : p.Fits w h) {i : ℕ} {mp : Mapping}
    (hdecode : (layout w h).decode (.int i) = .ok mp) (hm : mp.Follows h p) :
    (layout w h).instancesAt e.2 i = .ok (p.triple e.2) := by
  obtain ⟨hmem, hs⟩ := List.mem_filter.mp he
  have hrange := (ha.split_range e.1 (mem_of_mem_zipIdx hmem) hs split hsplit).1
  rw [instancesAt, hdecode, ok_bind, hm.loopBounds_part hmem, ok_bind,
    hm.fanout he (hp.split_eq he hsplit ▸ hrange)]
  rfl

theorem exists_instancesAt (ha : Assembles w h) (he : e ∈ h.spatialLevels)
    (hsplit : e.1.split = some split) {i : ℕ} (hi : i < (layout w h).size) :
    ∃ p : Plan, p.Fits w h ∧ (layout w h).instancesAt e.2 i = .ok (p.triple e.2) := by
  obtain ⟨p, hp, hm, hdecode⟩ := exists_plan ha hi
  exact ⟨p, hp, instancesAt_of_follows ha he hsplit hp hdecode hm⟩

theorem mem_instanceSet (ha : Assembles w h) (he : e ∈ h.spatialLevels)
    (hsplit : e.1.split = some split) {t : Value × Product × Product} :
    t ∈ (layout w h).instanceSet e.2 ↔ ∃ p : Plan, p.Fits w h ∧ p.triple e.2 = t := by
  constructor
  · rintro ⟨i, hi, ht⟩
    obtain ⟨p, hp, hinstances⟩ := exists_instancesAt ha he hsplit hi
    exact ⟨p, hp, Except.ok.inj (hinstances.symm.trans ht)⟩
  · rintro ⟨p, hp, rfl⟩
    obtain ⟨i, hi, mp, hdecode, hm⟩ := exists_index_of_plan ha hp
    exact ⟨i, hi, instancesAt_of_follows ha he hsplit hp hdecode hm⟩

end MapSpace

section Hierarchies

variable {w : Workload} {full pruned : Hierarchy} {e : Level × ℕ} {split : Numeral} {p : Plan}

/-- Behind its unit dimensions a level that prunes has on X the other ones up to its cut. -/
theorem Plan.Fits.filter_take (hpruned : pruned.prunes = true) (hp : p.Fits w pruned)
    (he : e ∈ pruned.levels.zipIdx) :
    ((p.order e.2).take (p.cut e.2)).filter (fun d => !isUnit w e.1 d) =
      ((p.order e.2).filter fun d => !isUnit w e.1 d).take
        (p.cut e.2 - (Dim.all.filter (isUnit w e.1)).length) := by
  conv_lhs => rw [(hp.order e he).eq_pruneOrder hpruned]
  exact filter_take_pruneOrder _ _ _

/-- With the unit dimensions moved to the front, a plan has the same triple at a level that keeps its
cut. -/
theorem Plan.Fits.exists_pruned (hlevels : full.levels = pruned.levels) (hfull : full.prunes = false)
    (hpruned : pruned.prunes = true) (he : e ∈ full.spatialLevels) (hsplit : e.1.split = some split)
    (hrange : split.toInt ≤ Dim.count)
    (hkept : CutKept (isUnit w e.1) e.1.lead split.toInt.toNat) (hp : p.Fits w full) :
    ∃ p' : Plan, p'.Fits w pruned ∧ p'.triple e.2 = p.triple e.2 := by
  obtain ⟨hmem, hs⟩ := List.mem_filter.mp he
  have hmem' : e ∈ pruned.levels.zipIdx := hlevels ▸ hmem
  obtain ⟨hperm, hstart⟩ := hp.order e hmem
  rw [startOf_of_not_prunes hfull] at hstart
  have hp' := hp.reorder hlevels (f := fun l => pruneOrder (isUnit w l))
    fun l _ o ho => ho.prune hfull hpruned
  have hcut : (p.reorder pruned.levels fun l => pruneOrder (isUnit w l)).cut e.2 = p.cut e.2 :=
    (hp'.cut_eq (List.mem_filter.mpr ⟨hmem', hs⟩) hsplit).trans (hp.cut_eq he hsplit).symm
  have hinstances : p.instances e.2 =
      (p.reorder pruned.levels fun l => pruneOrder (isUnit w l)).instances e.2 := by
    refine instances_eq (hp.factorAt_eq_one hmem) rfl ?_ ?_
    · rw [order_reorder _ hmem', filter_pruneOrder]
    · rw [order_reorder _ hmem', hcut, hp.cut_eq he hsplit]
      exact (filter_take_of_cutKept hkept hperm hstart (by omega)).symm
  exact ⟨_, hp', triple_eq_of_factors rfl hinstances.symm⟩

/-- With the unit dimensions put behind the start that the level gives, a pruned plan has the same triple
at a level that keeps its cut. -/
theorem Plan.Fits.exists_unpruned (hlevels : full.levels = pruned.levels)
    (hfull : full.prunes = false) (hpruned : pruned.prunes = true)
    (hlead : ∀ l ∈ full.levels, l.lead.Nodup) (he : e ∈ full.spatialLevels)
    (hsplit : e.1.split = some split) (hrange : split.toInt ≤ Dim.count)
    (hkept : CutKept (isUnit w e.1) e.1.lead split.toInt.toNat) (hp : p.Fits w pruned) :
    ∃ p' : Plan, p'.Fits w full ∧ p'.triple e.2 = p.triple e.2 := by
  obtain ⟨hmem, hs⟩ := List.mem_filter.mp he
  have hmem' : e ∈ pruned.levels.zipIdx := hlevels ▸ hmem
  have hspatial : e ∈ pruned.spatialLevels := List.mem_filter.mpr ⟨hmem', hs⟩
  have hp' := hp.reorder hlevels.symm (f := fun l => unpruneOrder (isUnit w l) l.lead)
    fun l hl o ho => ho.unprune hfull (hlead l hl)
  obtain ⟨hperm, hstart⟩ := hp'.order e hmem
  rw [startOf_of_not_prunes hfull] at hstart
  have hfilter := (hp.order e hmem').filter_unpruneOrder hpruned
  rw [← order_reorder (p := p) (fun l => unpruneOrder (isUnit w l) l.lead) hmem] at hfilter
  refine ⟨_, hp', triple_eq_of_factors rfl
    (instances_eq (hp'.factorAt_eq_one hmem) rfl hfilter ?_)⟩
  rw [hp'.cut_eq he hsplit, ← filter_take_of_cutKept hkept hperm hstart (by omega),
    filter_take_pruneOrder, hfilter, hp.filter_take hpruned hmem', hp.cut_eq hspatial hsplit]

/-- Where a cut is not kept, every pruned plan comes with one of the hierarchy that does not prune that
has the same factors and the other dimensions in the same order, but always another number of them on
X. -/
theorem Plan.exists_spread (hlevels : full.levels = pruned.levels) (hfull : full.prunes = false)
    (hpruned : pruned.prunes = true) (hlead : ∀ l ∈ full.levels, l.lead.Nodup)
    (he : e ∈ full.spatialLevels) (hsplit : e.1.split = some split)
    (hrange : split.toInt ≤ Dim.count)
    (hnot : ¬ CutKept (isUnit w e.1) e.1.lead split.toInt.toNat) :
    ∃ n ≠ split.toInt.toNat - (Dim.all.filter (isUnit w e.1)).length,
      ∀ p : Plan, p.Fits w pruned → n ≤ ((p.order e.2).filter fun d => !isUnit w e.1 d).length ∧
        ∃ p' : Plan, p'.Fits w full ∧ p'.factors = p.factors ∧
          (p'.instances e.2).1 = p.productOf (isUnit w e.1) e.2 n := by
  obtain ⟨hmem, hs⟩ := List.mem_filter.mp he
  have hmem' : e ∈ pruned.levels.zipIdx := hlevels ▸ hmem
  have hnodup := hlead e.1 (mem_of_mem_zipIdx hmem)
  obtain ⟨first, n, hne, hcount⟩ := exists_of_not_cutKept hnot hnodup (by omega)
  refine ⟨n, hne, fun p hp => ?_⟩
  obtain ⟨others, hothers⟩ := (hp.order e hmem').prefix_filter hpruned
  have hperm : others.Perm (restOthers (isUnit w e.1) e.1.lead) := by
    have hall := (perm_append_restOf hnodup (List.Perm.refl _)).symm.filter fun d => !isUnit w e.1 d
    have hsame := (hp.order e hmem').1.filter fun d => !isUnit w e.1 d
    rw [← hothers] at hsame
    rw [List.filter_append] at hall
    exact (List.perm_append_left_iff _).mp (hsame.trans hall)
  have hfill : OrderFits w full e.1 (fill (isUnit w e.1) e.1.lead others first) := by
    rw [OrderFits, startOf_of_not_prunes hfull]
    exact ⟨perm_fill hnodup hperm first, prefix_fill _ _ _ _⟩
  have hp' := (hp.reorder hlevels.symm (f := fun l => unpruneOrder (isUnit w l) l.lead)
    fun l hl o ho => ho.unprune hfull (hlead l hl)).withOrder hmem hfill
  have horder : ((p.reorder full.levels fun l => unpruneOrder (isUnit w l) l.lead).withOrder e.2
      (fill (isUnit w e.1) e.1.lead others first)).order e.2 =
        fill (isUnit w e.1) e.1.lead others first := Function.update_self _ _ _
  have hfilter : (fill (isUnit w e.1) e.1.lead others first).filter (fun d => !isUnit w e.1 d) =
      (p.order e.2).filter fun d => !isUnit w e.1 d := (filter_fill hperm first).trans hothers
  have htake := UnitDims.filter_take_eq (fun d => !isUnit w e.1 d)
    (fill (isUnit w e.1) e.1.lead others first) split.toInt.toNat
  rw [hcount others hperm] at htake
  refine ⟨?_, _, hp', rfl, ?_⟩
  · rw [← hcount others hperm, ← hfilter]
    exact ((List.take_sublist _ _).filter _).length_le
  · rw [hp'.instances_fst (n := n) hmem, productOf, productOf, horder, hfilter]
    · rfl
    · rw [horder, hp'.cut_eq he hsplit, htake]

theorem Plan.Fits.productOf_le (hp : p.Fits w pruned) (he : e ∈ pruned.levels.zipIdx) (n : ℕ) :
    p.productOf (isUnit w e.1) e.2 n ≤ (Dim.all.map (p.factorAt e.2)).prod := by
  have hpos : 0 < (Dim.all.map (p.factorAt e.2)).prod := List.prod_pos fun v hv => by
    obtain ⟨d, -, rfl⟩ := List.mem_map.mp hv
    exact (hp.factors d).getD_pos e.2
  have hsub : (((p.order e.2).filter fun d => !isUnit w e.1 d).take n).Sublist (p.order e.2) :=
    (List.take_sublist _ _).trans List.filter_sublist
  rw [← ((hp.order e he).1.map (p.factorAt e.2)).prod_eq] at hpos ⊢
  exact Nat.le_of_dvd hpos (hsub.map _).prod_dvd_prod

/-- The products of the first so many dimensions, the unit ones left out, in the plans with given factors
at a place. -/
def Plan.productsOf (w : Workload) (h : Hierarchy) (e : Level × ℕ) (factor : Dim → ℕ) (n : ℕ) : Set ℕ :=
  {x | ∃ p : Plan, p.Fits w h ∧ p.factorAt e.2 = factor ∧ p.productOf (isUnit w e.1) e.2 n = x}

/-- Where the factors are above one, the products of more dimensions are greater: taken from every plan
they are not all among those of fewer, nor the other way round. -/
theorem Plan.eq_of_productOf_mem (he : e ∈ pruned.levels.zipIdx) (factor : Dim → ℕ)
    (hgrow : ∀ d, isUnit w e.1 d = false → 1 < factor d) {c n : ℕ}
    (hc : c ≤ Dim.count - (Dim.all.filter (isUnit w e.1)).length)
    (hn : n ≤ Dim.count - (Dim.all.filter (isUnit w e.1)).length)
    (hsome : (productsOf w pruned e factor c).Nonempty)
    (hnext : ∀ p : Plan, p.Fits w pruned → p.factorAt e.2 = factor →
      p.productOf (isUnit w e.1) e.2 n ∈ productsOf w pruned e factor c) : n = c := by
  have hlt {p : Plan} (hp : p.Fits w pruned) (hfactor : p.factorAt e.2 = factor) {a b : ℕ}
      (hab : a < b) (hb : b ≤ Dim.count - (Dim.all.filter (isUnit w e.1)).length) :
      p.productOf (isUnit w e.1) e.2 a < p.productOf (isUnit w e.1) e.2 b := by
    have htotal := length_filter_not (isUnit w e.1) (hp.order e he).1
    refine UnitDims.prod_take_lt (fun d hd => ?_) hab (by omega)
    rw [hfactor]
    exact hgrow d (by simpa using (List.mem_filter.mp hd).2)
  have hbounded : BddAbove (productsOf w pruned e factor c) := by
    refine ⟨(Dim.all.map factor).prod, ?_⟩
    rintro _ ⟨p, hp, rfl, rfl⟩
    exact hp.productOf_le he c
  rcases Nat.lt_trichotomy n c with hless | heq | hgreater
  · obtain ⟨p, hp, hfactor, hleast⟩ := Nat.sInf_mem hsome
    have hcount := hlt hp hfactor hless hc
    exact absurd (Nat.sInf_le (hnext p hp hfactor)) (by omega)
  · exact heq
  · obtain ⟨p, hp, hfactor, hmost⟩ := Nat.sSup_mem hsome hbounded
    have hcount := hlt hp hfactor hgreater hn
    exact absurd (le_csSup hbounded (hnext p hp hfactor)) (by omega)

variable [Text.DigitLimit]

theorem MapSpace.exists_grown_plan (ha : Assembles w pruned) (k : ℕ) (grows : Dim → Bool)
    (hgrow : ∀ d, grows d → ∃ fs, Tiles w pruned d fs ∧ 1 < fs.getD k 1) :
    ∃ p : Plan, p.Fits w pruned ∧ ∀ d, grows d → 1 < p.factorAt k d := by
  obtain ⟨p, hp, -⟩ := exists_plan ha (Radix.volume_pos ha.partSizes_pos)
  have hall : ∀ d, ∃ fs, Tiles w pruned d fs ∧ (grows d → 1 < fs.getD k 1) := by
    intro d
    by_cases hd : grows d
    · obtain ⟨fs, hfs, hlt⟩ := hgrow d hd
      exact ⟨fs, hfs, fun _ => hlt⟩
    · exact ⟨_, hp.factors d, fun h => absurd h hd⟩
  choose fs hfs hlt using hall
  refine ⟨{ p with factors := .ofFn fs }, ⟨fun d => ?_, hp.order, hp.split⟩, fun d hd => ?_⟩
  · rw [PerDim.get_ofFn]
    exact hfs d
  · rw [Plan.factorAt, PerDim.get_ofFn]
    exact hlt d hd

/-- If the triples of the space without pruning are among those with it, the number along X of one of its
plans is a product that a pruned plan has before its cut. -/
theorem MapSpace.instances_mem_productsOf (hpruned : pruned.prunes = true) (ha : Assembles w full)
    (ha' : Assembles w pruned) (he : e ∈ full.spatialLevels) (he' : e ∈ pruned.spatialLevels)
    (hsplit : e.1.split = some split)
    (hsub : (layout w full).instanceSet e.2 ⊆ (layout w pruned).instanceSet e.2)
    (hp : p.Fits w full) : (p.instances e.2).1 ∈ Plan.productsOf w pruned e (p.factorAt e.2)
      (split.toInt.toNat - (Dim.all.filter (isUnit w e.1)).length) := by
  have htriple := hsub ((mem_instanceSet ha he hsplit).mpr ⟨p, hp, rfl⟩)
  obtain ⟨p', hp', htriple⟩ := (mem_instanceSet ha' he' hsplit).mp htriple
  simp only [Plan.triple, Prod.mk.injEq, Product.number.injEq, Number.int.injEq,
    Nat.cast_inj] at htriple
  have hmem := (List.mem_filter.mp he').1
  have htake := hp'.filter_take hpruned hmem
  refine ⟨p', hp', Plan.factorAt_eq_of_factorsOfLevel htriple.1, ?_⟩
  rw [← htriple.2.1, ← hp'.cut_eq he' hsplit]
  exact (hp'.instances_fst hmem htake).symm

/-- A level whose other dimensions can all have factors above one has the same triples with and without
pruning only if its cut is kept. -/
theorem MapSpace.cutKept_of_instanceSet_eq (hlevels : full.levels = pruned.levels)
    (hfull : full.prunes = false) (hpruned : pruned.prunes = true) (ha : Assembles w full)
    (ha' : Assembles w pruned) (he : e ∈ full.spatialLevels) (hsplit : e.1.split = some split)
    (hgrow : ∀ d, isUnit w e.1 d = false → ∃ fs, Tiles w full d fs ∧ 1 < fs.getD e.2 1)
    (hsub : (layout w full).instanceSet e.2 ⊆ (layout w pruned).instanceSet e.2) :
    CutKept (isUnit w e.1) e.1.lead split.toInt.toNat := by
  obtain ⟨hmem, hs⟩ := List.mem_filter.mp he
  have hmem' : e ∈ pruned.levels.zipIdx := hlevels ▸ hmem
  have he' : e ∈ pruned.spatialLevels := List.mem_filter.mpr ⟨hmem', hs⟩
  have hrange := (ha.split_range e.1 (mem_of_mem_zipIdx hmem) hs split hsplit).2
  by_contra hnot
  obtain ⟨n, hne, hspread⟩ :=
    Plan.exists_spread hlevels hfull hpruned ha.lead_nodup he hsplit hrange hnot
  obtain ⟨p, hp, hlt⟩ := exists_grown_plan ha' e.2 (fun d => !isUnit w e.1 d)
    fun d hd => by
      obtain ⟨fs, hfs, hlt⟩ := hgrow d (by simpa using hd)
      exact ⟨fs, (tiles_of_levels_eq hlevels).mp hfs, hlt⟩
  have hn := (hspread p hp).1
  have htotal := length_filter_not (isUnit w e.1) (hp.order e hmem').1
  refine hne (Plan.eq_of_productOf_mem hmem' (p.factorAt e.2)
    (fun d hd => hlt d (by simpa using hd)) (by omega) (by omega) ⟨_, p, hp, rfl, rfl⟩ ?_)
  intro q hq hfactor
  obtain ⟨-, q', hq', hfactors, hcount⟩ := hspread q hq
  have hnext := instances_mem_productsOf hpruned ha ha' he he' hsplit hsub hq'
  have hsame : q'.factorAt e.2 = p.factorAt e.2 := by
    rw [← hfactor]
    funext d
    rw [Plan.factorAt, Plan.factorAt, hfactors]
  rwa [hcount, hsame] at hnext

end Hierarchies

namespace MapSpace

section Built

variable [Text.DigitLimit] {w : Workload} {levels : List Level} {off on : Value}

/-- For levels of which a spatial one pins its split, the space without pruning can only be built if the
one with pruning can, and every index of either has factors and numbers of instances at that level. They
are the same ones in both spaces if the cut is kept, and if every dimension that is no unit one there can
have a factor above one, only then. -/
theorem pinned_split_instances (hoff : off.truthy = false) (hon : on.truthy = true)
    {full : MapSpace} (hfull : build w ⟨levels, off⟩ = .ok full) :
    ∃ pruned, build w ⟨levels, on⟩ = .ok pruned ∧
      ∀ e ∈ levels.zipIdx, e.1.isSpatial → ∀ split, e.1.split = some split →
        (∀ i < full.size, ∃ t, full.instancesAt e.2 i = .ok t) ∧
        (∀ j < pruned.size, ∃ t, pruned.instancesAt e.2 j = .ok t) ∧
        (CutKept (isUnit w e.1) e.1.lead split.toInt.toNat →
          pruned.instanceSet e.2 = full.instanceSet e.2) ∧
        ((∀ d, isUnit w e.1 d = false → ∃ fs, Tiles w ⟨levels, off⟩ d fs ∧ 1 < fs.getD e.2 1) →
          pruned.instanceSet e.2 = full.instanceSet e.2 →
            CutKept (isUnit w e.1) e.1.lead split.toInt.toNat) := by
  obtain ⟨ha, rfl, hshown⟩ := build_eq_ok.mp hfull
  have ha' : Assembles w ⟨levels, on⟩ := ha.of_levels
  have hlevels := levels_eq levels off on
  refine ⟨_, build_eq_ok.mpr ⟨ha', rfl, hshown.of_not_prunes hoff⟩,
    fun e he hs split hsplit => ?_⟩
  have hspatial (v : Value) : e ∈ Hierarchy.spatialLevels ⟨levels, v⟩ := List.mem_filter.mpr ⟨he, hs⟩
  have hrange := (ha.split_range e.1 (mem_of_mem_zipIdx he) hs split hsplit).2
  refine ⟨fun i hi => ?_, fun j hj => ?_, fun hkept => ?_, fun hgrow hsame => ?_⟩
  · obtain ⟨p, -, ht⟩ := exists_instancesAt ha (hspatial off) hsplit hi
    exact ⟨_, ht⟩
  · obtain ⟨p, -, ht⟩ := exists_instancesAt ha' (hspatial on) hsplit hj
    exact ⟨_, ht⟩
  · ext t
    rw [mem_instanceSet ha' (hspatial on) hsplit, mem_instanceSet ha (hspatial off) hsplit]
    constructor
    · rintro ⟨p, hp, rfl⟩
      exact hp.exists_unpruned hlevels hoff hon ha.lead_nodup (hspatial off) hsplit hrange hkept
    · rintro ⟨p, hp, rfl⟩
      exact hp.exists_pruned hlevels hoff hon (hspatial off) hsplit hrange hkept
  · exact cutKept_of_instanceSet_eq hlevels hoff hon ha ha' (hspatial off) hsplit hgrow hsame.ge

end Built

def meshWorkload : Workload :=
  ⟨.text "mesh", ⟨1, 1, 1, 1, 2, 1, 1⟩, Workload.unitPair, Workload.unitPair, .text "mesh"⟩

/-- One spatial level that puts one dimension on X, with a start of its orders. -/
def meshLevel (lead : List Dim) : Level :=
  { name := .text "Mesh", spatial := .flag true, split := some (.plain 1), lead := lead }

/-- Without pruning the dimension that is no unit one can stand on X, with pruning it cannot. -/
theorem instances_lost_by_pruning : ∃ full pruned t,
    build meshWorkload ⟨[meshLevel []], .flag false⟩ = .ok full ∧
      build meshWorkload ⟨[meshLevel []], .flag true⟩ = .ok pruned ∧
        full.instancesAt 0 4 = .ok t ∧ t.2.1.toValue.text? = some "2" ∧
          t ∈ full.instanceSet 0 ∧ t ∉ pruned.instanceSet 0 := by
  obtain ⟨full, hfull, hsize⟩ := exists_build (w := meshWorkload)
    (h := ⟨[meshLevel []], .flag false⟩) (n := 5040) (by decide +kernel)
  obtain ⟨pruned, hpruned, hsize'⟩ := exists_build (w := meshWorkload)
    (h := ⟨[meshLevel []], .flag true⟩) (n := 1) (by decide +kernel)
  have htwo : ((build meshWorkload ⟨[meshLevel []], .flag false⟩ >>= fun m => m.instancesAt 0 4).map
      fun t => t.2.1.toValue.text?).toOption = some (some "2") := by decide +kernel
  have hone : ((build meshWorkload ⟨[meshLevel []], .flag true⟩ >>= fun m => m.instancesAt 0 0).map
      fun t => t.2.1.toValue.text?).toOption = some (some "1") := by decide +kernel
  rw [hfull, ok_bind] at htwo
  rw [hpruned, ok_bind] at hone
  cases ht : full.instancesAt 0 4 with
  | error fault => simp [ht, Except.map, Except.toOption] at htwo
  | ok t =>
    have hx : t.2.1.toValue.text? = some "2" := by
      simpa [ht, Except.map, Except.toOption] using htwo
    refine ⟨full, pruned, t, hfull, hpruned, ht, hx, ⟨4, by omega, ht⟩, ?_⟩
    rintro ⟨i, hi, ht'⟩
    obtain rfl : i = 0 := by omega
    simp [ht', Except.map, Except.toOption, hx] at hone

/-- A start that puts a unit dimension before the cut keeps it; without a start it is not kept. -/
theorem pinned_split_instances_sample : ∃ full pruned full' pruned',
    build meshWorkload ⟨[meshLevel [.r]], .flag false⟩ = .ok full ∧ full.size = 720 ∧
      build meshWorkload ⟨[meshLevel [.r]], .flag true⟩ = .ok pruned ∧ pruned.size = 1 ∧
        pruned.instanceSet 0 = full.instanceSet 0 ∧
      build meshWorkload ⟨[meshLevel []], .flag false⟩ = .ok full' ∧
      build meshWorkload ⟨[meshLevel []], .flag true⟩ = .ok pruned' ∧
        pruned'.instanceSet 0 ≠ full'.instanceSet 0 := by
  obtain ⟨full, hfull, hsize⟩ := exists_build (w := meshWorkload)
    (h := ⟨[meshLevel [.r]], .flag false⟩) (n := 720) (by decide +kernel)
  obtain ⟨pruned, hpruned, hsize'⟩ := exists_build (w := meshWorkload)
    (h := ⟨[meshLevel [.r]], .flag true⟩) (n := 1) (by decide +kernel)
  obtain ⟨full', hfull', -⟩ := exists_build (w := meshWorkload)
    (h := ⟨[meshLevel []], .flag false⟩) (n := 5040) (by decide +kernel)
  have hon : (Value.flag true).truthy = true := rfl
  obtain ⟨m, hm, hinstances⟩ := pinned_split_instances rfl hon hfull
  obtain ⟨pruned', hpruned', hinstances'⟩ := pinned_split_instances rfl hon hfull'
  obtain rfl := Except.ok.inj (hm.symm.trans hpruned)
  have hkept := (hinstances (meshLevel [.r], 0) List.mem_cons_self rfl (.plain 1) rfl).2.2.1
  have honly := (hinstances' (meshLevel [], 0) List.mem_cons_self rfl (.plain 1) rfl).2.2.2
  have htiles : Tiles meshWorkload ⟨[meshLevel []], .flag false⟩ .c [2] :=
    ⟨.cons (by decide) .nil, by decide, rfl⟩
  have hgrow : ∀ d, isUnit meshWorkload (meshLevel []) d = false →
      ∃ fs, Tiles meshWorkload ⟨[meshLevel []], .flag false⟩ d fs ∧ 1 < fs.getD 0 1 := by
    intro d hd
    cases d with
    | c => exact ⟨[2], htiles, by decide⟩
    | _ => exact absurd hd (by decide)
  have hcut : ¬ CutKept (isUnit meshWorkload (meshLevel [])) [] 1 := by decide
  exact ⟨full, m, full', pruned', hfull, hsize, hm, hsize', hkept (by decide), hfull', hpruned',
    fun hsame => hcut (honly hgrow hsame)⟩

end MapSpace

end LoopTiling
