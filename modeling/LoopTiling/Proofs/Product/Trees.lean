import LoopTiling.Proofs.Product.Members

/-!
# Products of products

A tree of products is built from its leaves upward. If the leaves are objects that are set up, every
product in the tree can be built, its size is the product of the sizes below it, and its indices
number the tuples with one member of each space below it. If some leaf has no tables, the product
refuses all indices below its size.
-/
namespace LoopTiling

namespace Space

/-- Whether spaces have sizes and, if they are ready, digits to these sizes number the lists with a
member of each space. -/
structure AnswersAll (spaces : List Space) (sizes : List ℕ) (ready : Prop) : Prop where
  size : spaces.mapM Space.size = .ok sizes
  pos : ∀ n ∈ sizes, 0 < n
  decode : ready → ∀ i < Radix.volume sizes, decodeAll spaces (Radix.digits sizes i) =
    .ok (List.zipWith memberAt spaces (Radix.digits sizes i))
  bijOn : ready → Set.BijOn (fun i => List.zipWith memberAt spaces (Radix.digits sizes i))
    (Set.Iio (Radix.volume sizes)) {ms | AreMembers spaces ms}
  empty : ¬ ready → ∀ i < Radix.volume sizes,
    decodeAll spaces (Radix.digits sizes i) = .error .factorSpaceEmpty

variable {s : Space} {n : ℕ} {spaces : List Space} {sizes : List ℕ} {ready ready' : Prop}

theorem AnswersAll.nil : AnswersAll [] [] True where
  size := rfl
  pos := List.forall_mem_nil _
  decode _ _ _ := rfl
  bijOn _ := by
    have hset : {ms | AreMembers [] ms} = {[]} := by
      ext ms
      cases ms <;> simp [AreMembers]
    exact Radix.bijOn_single rfl hset
  empty hnot := absurd trivial hnot

theorem AnswersAll.cons (h : s.Answers n ready) (hs : AnswersAll spaces sizes ready') :
    AnswersAll (s :: spaces) (n :: sizes) (ready ∧ ready') := by
  have hlow (i : ℕ) : i % n < n := Nat.mod_lt i h.pos
  have hhigh {i : ℕ} (hi : i < Radix.volume (n :: sizes)) : i / n < Radix.volume sizes :=
    Nat.div_lt_of_lt_mul hi
  refine ⟨?_, List.forall_mem_cons.mpr ⟨h.pos, hs.pos⟩, fun hr i hi => ?_, fun hr => ?_,
    fun hnot i hi => ?_⟩
  · rw [List.mapM_cons, h.size, ok_bind, hs.size]
    rfl
  · rw [Radix.digits, decodeAll, h.decode hr.1 _ (hlow i), ok_bind, hs.decode hr.2 _ (hhigh hi)]
    rfl
  · have hset : {ms | AreMembers (s :: spaces) ms} =
        Set.image2 List.cons {m | s.IsMember m} {ms | AreMembers spaces ms} := by
      ext ms
      cases ms <;> simp [AreMembers]
    rw [hset]
    exact Radix.bijOn_image2 (fun _ _ _ _ he => List.cons.inj he) (h.bijOn hr.1) (hs.bijOn hr.2)
  · rw [Radix.digits, decodeAll]
    by_cases hr : ready
    · rw [h.decode hr _ (hlow i), ok_bind, hs.empty (fun hr' => hnot ⟨hr, hr'⟩) _ (hhigh hi)]
      rfl
    · rw [h.empty hr _ (hlow i)]
      rfl

theorem decode_product {i : ℕ} (hi : i < Radix.volume sizes) :
    (product spaces sizes).decode (.int i) =
      Member.tuple <$> decodeAll spaces (Radix.digits sizes i) := by
  rw [Space.decode, split, Value.placeIn_natCast hi]
  rfl

/-- A product answers if the spaces it is made of answer together. -/
theorem AnswersAll.product (h : AnswersAll spaces sizes ready) :
    (product spaces sizes).Answers (Radix.volume sizes) ready := by
  by_cases hr : ready
  · refine .of_bijOn .tuple rfl (Radix.volume_pos h.pos) hr (fun i hi => ?_) (h.bijOn hr)
      (fun _ _ => Member.tuple.inj) fun m => ?_
    · rw [decode_product hi, h.decode hr i hi]
      rfl
    · cases m <;> simp [IsMember]
  · refine ⟨rfl, Radix.volume_pos h.pos, fun hr' => absurd hr' hr, fun hr' => absurd hr' hr,
      fun _ i hi => ?_⟩
    rw [decode_product hi, h.empty hr i hi]
    rfl

theorem ofMembers_eq_ok [Text.DigitLimit] : ofMembers spaces = .ok s ↔
    ∃ sizes, spaces.mapM size = .ok sizes ∧ (∀ n ∈ sizes, 0 < n) ∧ s = .product spaces sizes := by
  simp only [ofMembers, bind_eq_ok, Counter.ofSizes_eq_ok, pure_eq_ok]
  constructor
  · rintro ⟨sizes, hsizes, _, ⟨hpos, rfl⟩, rfl⟩
    exact ⟨sizes, hsizes, hpos, rfl⟩
  · rintro ⟨sizes, hsizes, hpos, rfl⟩
    exact ⟨sizes, hsizes, _, ⟨hpos, rfl⟩, rfl⟩

end Space

/-- A tree of products over spaces. -/
inductive ProductTree
  | leaf (s : Space)
  | node (children : List ProductTree)

namespace ProductTree

mutual

/-- The spaces at the leaves, from left to right. -/
def leaves : ProductTree → List Space
  | leaf s => [s]
  | node children => leavesAll children

def leavesAll : List ProductTree → List Space
  | [] => []
  | t :: ts => t.leaves ++ leavesAll ts

end

variable [Text.DigitLimit]

mutual

/-- The space that a tree builds. -/
def build : ProductTree → Except Fault Space
  | leaf s => .ok s
  | node children => do Space.ofMembers (← buildAll children)

def buildAll : List ProductTree → Except Fault (List Space)
  | [] => .ok []
  | t :: ts => do
    let s ← t.build
    return s :: (← buildAll ts)

end

mutual

/-- A space that is built over objects answers if all the objects are set up. -/
theorem answers_of_build {s : Space} {n : ℕ} : ∀ {t : ProductTree},
    (∀ l ∈ t.leaves, l.IsObject) → t.build = .ok s → s.size = .ok n →
      s.Answers n (∀ l ∈ t.leaves, l.IsSetUp)
  | leaf l, ht, hb, hn => by
    obtain rfl : l = s := Except.ok.inj hb
    have hl : l.IsObject := ht l List.mem_cons_self
    simpa [leaves] using hl.answers hn
  | node children, ht, hb, hn => by
    obtain ⟨spaces, hspaces, hs⟩ := bind_eq_ok.mp hb
    obtain ⟨sizes, hsizes, -, rfl⟩ := Space.ofMembers_eq_ok.mp hs
    obtain rfl : Radix.volume sizes = n := Except.ok.inj hn
    exact (answersAll_of_buildAll ht hspaces hsizes).product

theorem answersAll_of_buildAll {spaces : List Space} {sizes : List ℕ} :
    ∀ {ts : List ProductTree}, (∀ l ∈ leavesAll ts, l.IsObject) → buildAll ts = .ok spaces →
      spaces.mapM Space.size = .ok sizes →
      Space.AnswersAll spaces sizes (∀ l ∈ leavesAll ts, l.IsSetUp)
  | [], _, hb, hn => by
    obtain rfl : [] = spaces := Except.ok.inj hb
    obtain rfl : [] = sizes := Except.ok.inj hn
    simpa [leavesAll] using Space.AnswersAll.nil
  | t :: ts, ht, hb, hn => by
    simp only [buildAll, bind_eq_ok, pure_eq_ok] at hb
    obtain ⟨s, hs, rest, hrest, rfl⟩ := hb
    simp only [List.mapM_cons, bind_eq_ok, pure_eq_ok] at hn
    obtain ⟨n, hn, ns, hns, rfl⟩ := hn
    simp only [leavesAll, List.forall_mem_append] at ht ⊢
    exact Space.AnswersAll.cons (answers_of_build ht.1 hs hn)
      (answersAll_of_buildAll ht.2 hrest hns)

end

mutual

/-- Over objects that are set up every product can be built. -/
theorem exists_build : ∀ {t : ProductTree}, (∀ l ∈ t.leaves, l.IsObject ∧ l.IsSetUp) →
    ∃ s n, t.build = .ok s ∧ s.size = .ok n
  | leaf s, ht => by
    obtain ⟨hobject, hup⟩ := ht s List.mem_cons_self
    obtain ⟨n, hn⟩ := hobject.exists_size hup
    exact ⟨s, n, rfl, hn⟩
  | node children, ht => by
    obtain ⟨spaces, sizes, hspaces, hsizes⟩ := exists_buildAll ht
    have hall := answersAll_of_buildAll (fun l hl => (ht l hl).1) hspaces hsizes
    refine ⟨.product spaces sizes, Radix.volume sizes, ?_, rfl⟩
    rw [build, hspaces, ok_bind]
    exact Space.ofMembers_eq_ok.mpr ⟨sizes, hsizes, hall.pos, rfl⟩

theorem exists_buildAll : ∀ {ts : List ProductTree},
    (∀ l ∈ leavesAll ts, l.IsObject ∧ l.IsSetUp) →
    ∃ spaces sizes, buildAll ts = .ok spaces ∧ spaces.mapM Space.size = .ok sizes
  | [], _ => ⟨[], [], rfl, rfl⟩
  | t :: ts, ht => by
    simp only [leavesAll, List.forall_mem_append] at ht
    obtain ⟨s, n, hs, hn⟩ := exists_build ht.1
    obtain ⟨spaces, sizes, hspaces, hsizes⟩ := exists_buildAll ht.2
    refine ⟨s :: spaces, n :: sizes, ?_, ?_⟩
    · rw [buildAll, hs, ok_bind, hspaces]
      rfl
    · rw [List.mapM_cons, hn, ok_bind, hsizes]
      rfl

end

end ProductTree

end LoopTiling
