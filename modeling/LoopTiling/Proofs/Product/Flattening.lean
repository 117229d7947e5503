import LoopTiling.Proofs.Product.Trees
import LoopTiling.Proofs.Radix.Encoding

/-!
# Flattening products

How spaces are grouped into products does not matter: the size of a product is the product of the sizes
at its leaves, and the digits of an index over these sizes name the members at the leaves, from left to
right. So a product inside another may be replaced by its members.
-/
namespace LoopTiling

namespace Member

mutual

/-- The members at the leaves of a nested tuple, from left to right. -/
def parts : Member → List Member
  | tuple ms => partsAll ms
  | m => [m]

def partsAll : List Member → List Member
  | [] => []
  | m :: ms => m.parts ++ partsAll ms

end

end Member

namespace Space

theorem IsObject.parts_of_isMember [Text.DigitLimit] {s : Space} {m : Member} (hs : s.IsObject)
    (hm : s.IsMember m) : m.parts = [m] := by
  cases hs <;> cases m <;> first | rfl | exact hm.elim

/-- Whether splitting an index into digits and encoding digits to an index undo each other. -/
structure SplitsBack (sizes : List ℕ) : Prop where
  encode_split : ∀ i < Radix.volume sizes, ∃ ds : List ℕ, split sizes (.int i) = .ok ds ∧
    Radix.encode (sizes.map number) (ds.map number) = .ok (.int i)
  split_encode : ∀ ds : List ℤ, Radix.AreDigits sizes ds → ∃ i : ℕ, i < Radix.volume sizes ∧
    Radix.encode (sizes.map number) (ds.map .int) = .ok (.int i) ∧
      split sizes (.int i) = .ok (ds.map Int.toNat)

theorem split_natCast {sizes : List ℕ} {i : ℕ} (hi : i < Radix.volume sizes) :
    split sizes (.int i) = .ok (Radix.digits sizes i) := by
  rw [split, Value.placeIn_natCast hi]
  rfl

theorem splitsBack_of_pos {sizes : List ℕ} (hpos : ∀ n ∈ sizes, 0 < n) : SplitsBack sizes where
  encode_split i hi := by
    refine ⟨Radix.digits sizes i, split_natCast hi, ?_⟩
    rw [Radix.encode, if_pos (by simp)]
    exact Radix.encodeFrom_digits hpos hi
  split_encode ds hds := by
    have hlen : ds.length = sizes.length := hds.length_eq.symm
    refine ⟨Radix.rank sizes (ds.map Int.toNat), Radix.rank_lt_volume hds, ?_, ?_⟩
    · rw [Radix.encode, if_pos (by simp [hlen])]
      rcases Radix.encodeFrom_int hlen with ⟨-, hok⟩ | ⟨hnot, -⟩
      · exact hok
      · exact absurd hds hnot
    · rw [split_natCast (Radix.rank_lt_volume hds), Radix.digits_rank hds]

end Space

namespace ProductTree

/-- Whether a tree stands in another, or is the same. -/
inductive IsIn (t : ProductTree) : ProductTree → Prop
  | self : IsIn t t
  | child {u : ProductTree} {children : List ProductTree} :
      u ∈ children → IsIn t u → IsIn t (node children)

/-- Whether a tree becomes another when one product in it is replaced by its members. -/
inductive Flattens : ProductTree → ProductTree → Prop
  | here (before inner after : List ProductTree) :
      Flattens (node (before ++ node inner :: after)) (node (before ++ (inner ++ after)))
  | child (before after : List ProductTree) {t t' : ProductTree} : Flattens t t' →
      Flattens (node (before ++ t :: after)) (node (before ++ t' :: after))

theorem leavesAll_append (ts us : List ProductTree) :
    leavesAll (ts ++ us) = leavesAll ts ++ leavesAll us := by
  induction ts with
  | nil => rfl
  | cons t ts ih => rw [List.cons_append, leavesAll, leavesAll, ih, List.append_assoc]

theorem mem_leavesAll {t : ProductTree} {ts : List ProductTree} (ht : t ∈ ts) {s : Space}
    (hs : s ∈ t.leaves) : s ∈ leavesAll ts := by
  obtain ⟨before, after, rfl⟩ := List.append_of_mem ht
  rw [leavesAll_append, leavesAll]
  exact List.mem_append_right _ (List.mem_append_left _ hs)

theorem IsIn.mem_leaves {u t : ProductTree} (h : u.IsIn t) {s : Space} (hs : s ∈ u.leaves) :
    s ∈ t.leaves := by
  induction h with
  | self => exact hs
  | child hmem _ ih => exact mem_leavesAll hmem ih

theorem Flattens.leaves_eq {t t' : ProductTree} (h : Flattens t t') : t'.leaves = t.leaves := by
  induction h with
  | here before inner after => simp only [leaves, leavesAll_append, leavesAll]
  | child before after _ ih => simp only [leaves, leavesAll_append, leavesAll, ih]

section Building

variable [Text.DigitLimit]

mutual

/-- The size and the members of a tree, read from its leaves. -/
theorem parts_memberAt {s : Space} {n : ℕ} : ∀ {t : ProductTree},
    (∀ l ∈ t.leaves, l.IsObject ∧ l.IsSetUp) → t.build = .ok s → s.size = .ok n →
      ∃ sizes, t.leaves.mapM Space.size = .ok sizes ∧ n = Radix.volume sizes ∧
        ∀ i < n, (s.memberAt i).parts =
          List.zipWith Space.memberAt t.leaves (Radix.digits sizes i)
  | leaf l, ht, hb, hn => by
    obtain rfl : l = s := Except.ok.inj hb
    obtain ⟨hobject, hup⟩ := ht l List.mem_cons_self
    refine ⟨[n], ?_, (Nat.mul_one n).symm, fun i hi => ?_⟩
    · simp [leaves, hn]
    · have hmem := ((hobject.answers hn).bijOn hup).mapsTo hi
      rw [hobject.parts_of_isMember hmem]
      simp [leaves, Radix.digits, Nat.mod_eq_of_lt hi]
  | node children, ht, hb, hn => by
    obtain ⟨spaces, hspaces, hs⟩ := bind_eq_ok.mp hb
    obtain ⟨ns, hns, -, rfl⟩ := Space.ofMembers_eq_ok.mp hs
    obtain rfl : Radix.volume ns = n := Except.ok.inj hn
    obtain ⟨sizes, hsizes, hvolume, hparts⟩ := partsAll_memberAt ht hspaces hns
    have hall := answersAll_of_buildAll (fun l hl => (ht l hl).1) hspaces hns
    have hup : ∀ l ∈ leavesAll children, l.IsSetUp := fun l hl => (ht l hl).2
    refine ⟨sizes, hsizes, hvolume, fun i hi => ?_⟩
    have hdecode : (Space.product spaces ns).decode (.int i) =
        .ok (.tuple (List.zipWith Space.memberAt spaces (Radix.digits ns i))) := by
      rw [Space.decode_product hi, hall.decode hup i hi]
      rfl
    rw [Space.memberAt_of_decode hdecode]
    exact hparts i hi

theorem partsAll_memberAt {spaces : List Space} {ns : List ℕ} : ∀ {ts : List ProductTree},
    (∀ l ∈ leavesAll ts, l.IsObject ∧ l.IsSetUp) → buildAll ts = .ok spaces →
      spaces.mapM Space.size = .ok ns →
      ∃ sizes, (leavesAll ts).mapM Space.size = .ok sizes ∧
        Radix.volume ns = Radix.volume sizes ∧ ∀ i < Radix.volume ns,
          Member.partsAll (List.zipWith Space.memberAt spaces (Radix.digits ns i)) =
            List.zipWith Space.memberAt (leavesAll ts) (Radix.digits sizes i)
  | [], _, hb, hn => by
    obtain rfl : [] = spaces := Except.ok.inj hb
    obtain rfl : [] = ns := Except.ok.inj hn
    exact ⟨[], rfl, rfl, fun _ _ => rfl⟩
  | t :: ts, ht, hb, hn => by
    simp only [buildAll, bind_eq_ok, pure_eq_ok] at hb
    obtain ⟨s, hs, rest, hrest, rfl⟩ := hb
    simp only [List.mapM_cons, bind_eq_ok, pure_eq_ok] at hn
    obtain ⟨n, hn, ns, hns, rfl⟩ := hn
    simp only [leavesAll, List.forall_mem_append] at ht
    obtain ⟨sizes, hsizes, hvolume, hparts⟩ := parts_memberAt ht.1 hs hn
    obtain ⟨sizes', hsizes', hvolume', hparts'⟩ := partsAll_memberAt ht.2 hrest hns
    have hpos : 0 < n := (answers_of_build (fun l hl => (ht.1 l hl).1) hs hn).pos
    refine ⟨sizes ++ sizes', ?_, ?_, fun i hi => ?_⟩
    · rw [leavesAll, List.mapM_append, hsizes, ok_bind, hsizes']
      rfl
    · rw [Radix.volume, hvolume, hvolume', Radix.volume_append]
    · have hlen : t.leaves.length = (Radix.digits sizes i).length := by
        rw [Radix.length_digits]
        exact (mapM_eq_ok.mp hsizes).length_eq
      -- The digit of the first tree is the index modulo its size, which its own digits do not see.
      rw [Radix.digits, List.zipWith_cons_cons, Member.partsAll, hparts _ (Nat.mod_lt i hpos),
        hparts' _ (Nat.div_lt_of_lt_mul hi), hvolume, Radix.digits_mod_volume, leavesAll,
        Radix.digits_append, List.zipWith_append hlen]

end

/-- A product of products answers any index like its leaves side by side. -/
theorem parts_decode {children : List ProductTree} {s : Space} {sizes : List ℕ}
    (ht : ∀ l ∈ leavesAll children, l.IsObject ∧ l.IsSetUp)
    (hb : (node children).build = .ok s)
    (hsizes : (leavesAll children).mapM Space.size = .ok sizes) (v : Value) :
    Member.parts <$> s.decode v =
      (fun i => List.zipWith Space.memberAt (leavesAll children) (Radix.digits sizes i)) <$>
        v.placeIn "product space" (Radix.volume sizes) := by
  obtain ⟨spaces, hspaces, hs⟩ := bind_eq_ok.mp hb
  obtain ⟨ns, hns, -, rfl⟩ := Space.ofMembers_eq_ok.mp hs
  obtain ⟨sizes', hsizes', hvolume, hparts⟩ := partsAll_memberAt ht hspaces hns
  obtain rfl : sizes = sizes' := Except.ok.inj (hsizes.symm.trans hsizes')
  have hall := answersAll_of_buildAll (fun l hl => (ht l hl).1) hspaces hns
  rw [Space.decode, Space.split, ← hvolume]
  cases hv : v.placeIn "product space" (Radix.volume ns) with
  | error fault => rfl
  | ok i =>
    have hi : i < Radix.volume ns := Value.lt_of_placeIn hv
    have hdecode := hall.decode (fun l hl => (ht l hl).2) i hi
    change Member.parts <$> (Space.decodeAll spaces (Radix.digits ns i) >>= fun ms =>
      pure (Member.tuple ms)) = _
    rw [hdecode]
    exact congrArg Except.ok (hparts i hi)

theorem splitsBack_of_build {t : ProductTree} {members : List Space} {radices : List ℕ}
    (ht : ∀ l ∈ t.leaves, l.IsObject) (hb : t.build = .ok (.product members radices)) :
    Space.SplitsBack radices := by
  cases t with
  | leaf l =>
    have hl := ht l List.mem_cons_self
    rw [Except.ok.inj hb] at hl
    cases hl
  | node children =>
    obtain ⟨spaces, -, hs⟩ := bind_eq_ok.mp hb
    obtain ⟨ns, -, hpos, he⟩ := Space.ofMembers_eq_ok.mp hs
    obtain ⟨-, rfl⟩ := Space.product.inj he
    exact Space.splitsBack_of_pos hpos

/-- Replacing a product by its members leaves what any index names at the leaves. -/
theorem Flattens.parts_decode_eq {t t' : ProductTree} (h : Flattens t t') {s s' : Space}
    {sizes : List ℕ} (ht : ∀ l ∈ t.leaves, l.IsObject ∧ l.IsSetUp) (hb : t.build = .ok s)
    (hb' : t'.build = .ok s') (hsizes : t.leaves.mapM Space.size = .ok sizes) (v : Value) :
    Member.parts <$> s'.decode v = Member.parts <$> s.decode v := by
  have hleaves := h.leaves_eq
  have ht' : ∀ l ∈ t'.leaves, l.IsObject ∧ l.IsSetUp := by rwa [hleaves]
  have hsizes' : t'.leaves.mapM Space.size = .ok sizes := by rwa [hleaves]
  cases h with
  | here | child =>
    rw [parts_decode ht hb hsizes, parts_decode ht' hb' hsizes']
    exact congrArg (fun ls => (fun i => List.zipWith Space.memberAt ls (Radix.digits sizes i)) <$>
      v.placeIn "product space" (Radix.volume sizes)) hleaves

/-- Over leaves that are set up every product of products can be built. Its size is the product of the
sizes of the leaves, its indices number the nested tuples of members of the leaves, and at every
product in it splitting and encoding undo each other. Replacing a product in it by its members changes
neither the size nor the members at the leaves that an index names. -/
theorem bijOn_nested_tuples {t : ProductTree} (ht : ∀ l ∈ t.leaves, l.IsObject ∧ l.IsSetUp) :
    ∃ s sizes, t.build = .ok s ∧ t.leaves.mapM Space.size = .ok sizes ∧
      s.size = .ok sizes.prod ∧
      Set.BijOn (fun i : ℕ => s.decode (.int i)) (Set.Iio sizes.prod)
        {r | ∃ m, s.IsMember m ∧ r = .ok m} ∧
      (∀ u : ProductTree, u.IsIn t → ∃ p, u.build = .ok p ∧
        ∀ members radices, p = .product members radices → Space.SplitsBack radices) ∧
      ∀ t', t.Flattens t' → ∃ s', t'.build = .ok s' ∧ s'.size = .ok sizes.prod ∧
        ∀ v, Member.parts <$> s'.decode v = Member.parts <$> s.decode v := by
  obtain ⟨s, n, hb, hn⟩ := exists_build ht
  obtain ⟨sizes, hsizes, rfl, -⟩ := parts_memberAt ht hb hn
  have hanswers := answers_of_build (fun l hl => (ht l hl).1) hb hn
  have hup : ∀ l ∈ t.leaves, l.IsSetUp := fun l hl => (ht l hl).2
  rw [Radix.volume_eq_prod] at hn hanswers
  refine ⟨s, sizes, hb, hsizes, hn, Radix.bijOn_ok (hanswers.bijOn hup) (hanswers.decode hup), ?_, ?_⟩
  · intro u hu
    have hleaves : ∀ l ∈ u.leaves, l.IsObject ∧ l.IsSetUp := fun l hl => ht l (hu.mem_leaves hl)
    obtain ⟨p, k, hp, hk⟩ := exists_build hleaves
    refine ⟨p, hp, fun members radices hproduct => ?_⟩
    rw [hproduct] at hp
    exact splitsBack_of_build (fun l hl => (hleaves l hl).1) hp
  · intro t' hflat
    have hleaves := hflat.leaves_eq
    have ht' : ∀ l ∈ t'.leaves, l.IsObject ∧ l.IsSetUp := by rwa [hleaves]
    obtain ⟨s', n', hb', hn'⟩ := exists_build ht'
    obtain ⟨sizes', hsizes', rfl, -⟩ := parts_memberAt ht' hb' hn'
    rw [hleaves, hsizes] at hsizes'
    obtain rfl : sizes = sizes' := Except.ok.inj hsizes'
    rw [Radix.volume_eq_prod] at hn'
    exact ⟨s', hb', hn', hflat.parts_decode_eq ht hb hb' hsizes⟩

end Building

/-- Three spaces in two products with an empty product beside the second. -/
def sampleTree : ProductTree :=
  .node [.leaf (.counter (CounterState.kind.run [.init (.list [.int 2, .int 3])])),
    .node [.node [], .leaf (.splits (SplitState.kind.run sampleSplitCalls))],
    .leaf (.orders (OrderState.kind.run OrderState.sampleCalls))]

def sampleFlatTree : ProductTree :=
  .node [.leaf (.counter (CounterState.kind.run [.init (.list [.int 2, .int 3])])),
    .node [], .leaf (.splits (SplitState.kind.run sampleSplitCalls)),
    .leaf (.orders (OrderState.kind.run OrderState.sampleCalls))]

theorem bijOn_nested_tuples_sample : ∃ s s', sampleTree.build = .ok s ∧
    sampleFlatTree.build = .ok s' ∧ s.size = .ok 51840 ∧ s'.size = .ok 51840 ∧
    Set.BijOn (fun i : ℕ => s.decode (.int i)) (Set.Iio 51840)
      {r | ∃ m, s.IsMember m ∧ r = .ok m} ∧
    ∀ v, Member.parts <$> s'.decode v = Member.parts <$> s.decode v := by
  have hcount : (OrderState.kind.run OrderState.sampleCalls).levelCount.toInt.toNat = 2 := by
    decide +kernel
  have hlevels : ∀ level : ℕ, level < 2 →
      ((OrderState.kind.run OrderState.sampleCalls).patterns.at? level).isSome := by
    decide +kernel
  have hobjects : ∀ l ∈ sampleTree.leaves, l.IsObject ∧ l.IsSetUp := by
    simp only [sampleTree, leaves, leavesAll, List.nil_append, List.cons_append,
      List.forall_mem_cons, List.not_mem_nil, false_implies, implies_true, and_true]
    refine ⟨⟨.counter _, trivial⟩, ⟨.splits _, trivial⟩, .orders _, ?_⟩
    rw [Space.IsSetUp, hcount]
    exact hlevels
  obtain ⟨s, sizes, hb, hsizes, hsize, hbij, -, hflat⟩ := bijOn_nested_tuples hobjects
  have hleaves : (sampleTree.leaves.mapM Space.size).toOption = some [6, 3, 2880] := by
    decide +kernel
  obtain rfl : sizes = [6, 3, 2880] := Except.ok.inj (hsizes.symm.trans (eq_ok_of_toOption hleaves))
  obtain ⟨s', hb', hsize', hparts⟩ := hflat sampleFlatTree (.here [_] [_, _] [_])
  exact ⟨s, s', hb, hb', hsize, hsize', hbij, hparts⟩

end ProductTree

end LoopTiling
