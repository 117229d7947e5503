import LoopTiling.Proofs.Index
import LoopTiling.Proofs.LevelTable
import LoopTiling.Proofs.Radix.Numbering
import LoopTiling.Space.Splits

/-!
# The split of a level and of all levels

A rule allows one split that is fixed, or every number of dimensions from its unit factors on. The
digits below its size number the splits that it allows. The splits of all levels are read from the
digits of the index; a fixed split, which takes no digit, may as well take one to the radix one.
-/
namespace LoopTiling

namespace SplitRule

def choice : SplitRule → ℕ → Numeral
  | fixed split, _ => split
  | free unit, digit => .plain (unit.toInt + digit)

/-- Whether a split is the fixed one, or lies between the unit factors and all dimensions. -/
def Allows : SplitRule → Numeral → Prop
  | fixed split, s => s = split
  | free unit, s => ∃ n : ℤ, s = .plain n ∧ unit.toInt ≤ n ∧ n ≤ Dim.count

theorem bijOn_choice (rule : SplitRule) :
    Set.BijOn rule.choice (Set.Iio rule.size) {s | rule.Allows s} := by
  cases rule with
  | fixed split => exact Radix.bijOn_single rfl rfl
  | free unit =>
    refine ⟨?_, ?_, ?_⟩
    · intro k hk
      rw [Set.mem_Iio, size] at hk
      exact ⟨unit.toInt + k, rfl, by omega, by omega⟩
    · intro k _ k' _ he
      have hsum : unit.toInt + (k : ℤ) = unit.toInt + (k' : ℤ) := Numeral.plain.inj he
      omega
    · rintro _ ⟨n, rfl, hunit, hcount⟩
      refine ⟨(n - unit.toInt).toNat, ?_, ?_⟩
      · rw [Set.mem_Iio, size]
        omega
      · rw [choice, Numeral.plain.injEq]
        omega

end SplitRule

namespace SplitSpace

/-- The splits of the levels are named by the digits of the index, one for each level that has a
rule. -/
theorem splitsAt_eq_zipWith (rules : LevelTable SplitRule) (i : ℕ) :
    splitsAt rules i = List.zipWith (fun e digit => (e.1, e.2.choice digit)) rules
      (Radix.digits (rules.map fun e => e.2.size) i) := by
  induction rules generalizing i with
  | nil => rfl
  | cons e rules ih =>
    obtain ⟨level, rule⟩ := e
    rw [List.map_cons, Radix.digits, List.zipWith_cons_cons, ← ih]
    cases rule with
    | fixed split =>
      have hone : (SplitRule.fixed split).size = 1 := rfl
      rw [hone, Nat.div_one]
      rfl
    | free unit => rfl

/-- Every table with a split for each level that its rule allows has exactly one index. -/
theorem bijOn_splitsAt (rules : LevelTable SplitRule) :
    Set.BijOn (splitsAt rules) (Set.Iio (Radix.volume (rules.map fun e => e.2.size)))
      {ss | List.Forall₂ (fun e s => s ∈ {s : Numeral × Numeral | s.1 = e.1 ∧ e.2.Allows s.2})
        rules ss} := by
  have hone : ∀ e ∈ rules, Set.BijOn (fun digit => (e.1, e.2.choice digit)) (Set.Iio e.2.size)
      {s : Numeral × Numeral | s.1 = e.1 ∧ e.2.Allows s.2} := by
    intro e _
    refine ⟨fun k hk => ⟨rfl, e.2.bijOn_choice.mapsTo hk⟩, ?_, ?_⟩
    · intro k hk k' hk' he
      exact e.2.bijOn_choice.injOn hk hk' (Prod.mk.inj he).2
    · rintro ⟨_, split⟩ ⟨rfl, hsplit⟩
      obtain ⟨k, hk, rfl⟩ := e.2.bijOn_choice.surjOn hsplit
      exact ⟨k, hk, rfl⟩
  have hnum := Radix.bijOn_zipWith_digits rules hone
  exact hnum.congr fun i _ => (splitsAt_eq_zipWith rules i).symm

def ofRules (levelCount : ℕ) (es : List (SplitRule × ℕ)) : SplitSpace :=
  ⟨.plain levelCount, LevelTable.ofPlaces es⟩

theorem size_ofRules (levelCount : ℕ) (es : List (SplitRule × ℕ)) :
    (ofRules levelCount es).size = Radix.volume (es.map fun e => e.1.size) := by
  rw [size, ofRules, LevelTable.ofPlaces, List.map_map]
  rfl

theorem decode_ofRules (levelCount : ℕ) {es : List (SplitRule × ℕ)} {i : ℕ}
    (hi : i < Radix.volume (es.map fun e => e.1.size)) :
    (ofRules levelCount es).decode (.int i) = .ok (splitsAt (LevelTable.ofPlaces es) i) := by
  rw [decode, size_ofRules, Value.placeIn_natCast hi]
  rfl

end SplitSpace

end LoopTiling
