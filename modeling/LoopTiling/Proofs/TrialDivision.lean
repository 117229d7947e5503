import Mathlib.Data.Nat.Log
import Mathlib.Data.Nat.Sqrt
import LoopTiling.Proofs.PrimeFactors

/-!
# Trial division ends

Both searches are loops over a state, and the recursions follow them turn by turn until they stop. The
search for divisors makes one turn for each number up to the root. In the search for prime factors the
bound moves with the number that is left: a division at least halves it, and between two divisions the
candidate comes closer to the root of what is left, so the number of turns is at most twice the root and
the logarithm of the number given.
-/
namespace LoopTiling

section Turns

variable {σ : Type} {turn? : σ → Option σ}

/-- The state after `k` turns, if the loop makes that many. -/
def afterTurns? (turn? : σ → Option σ) : ℕ → σ → Option σ
  | 0, s => some s
  | k + 1, s => (turn? s).bind (afterTurns? turn? k)

/-- Whether a loop makes `k` turns from `s` on and stops at `t`. -/
structure StopsAfter (turn? : σ → Option σ) (k : ℕ) (s t : σ) : Prop where
  reached : afterTurns? turn? k s = some t
  stopped : turn? t = none

theorem StopsAfter.here {s : σ} (h : turn? s = none) : StopsAfter turn? 0 s s := ⟨rfl, h⟩

theorem StopsAfter.turn {k : ℕ} {s s' t : σ} (hturn : turn? s = some s')
    (h : StopsAfter turn? k s' t) : StopsAfter turn? (k + 1) s t := by
  refine ⟨?_, h.stopped⟩
  rw [afterTurns?, hturn, Option.bind_some, h.reached]

/-- A number that every turn makes smaller bounds the number of turns. -/
theorem StopsAfter.add_measure_le {holds : σ → Prop} {measure : σ → ℕ}
    (hstep : ∀ s s', holds s → turn? s = some s' → holds s' ∧ measure s' < measure s) {k : ℕ}
    {s t : σ} (h : StopsAfter turn? k s t) (hs : holds s) : k + measure t ≤ measure s := by
  have hreached := h.reached
  clear h
  induction k generalizing s with
  | zero =>
    obtain rfl : s = t := Option.some.inj hreached
    omega
  | succ k ih =>
    rw [afterTurns?] at hreached
    cases hturn : turn? s with
    | none => simp [hturn] at hreached
    | some s' =>
      rw [hturn, Option.bind_some] at hreached
      obtain ⟨hs', hlt⟩ := hstep s s' hs hturn
      have hrest := ih hs' hreached
      omega

end Turns

namespace Divisor

/-- Where the search for divisors stands: the candidate, and the small and the large divisors found, the
last one first. -/
structure DivisorSearch where
  candidate : ℕ
  small : List ℕ
  large : List ℕ

namespace DivisorSearch

def start : DivisorSearch := ⟨1, [], []⟩

/-- What one turn makes of a candidate that is not past the root. -/
def next (n : ℕ) (s : DivisorSearch) : DivisorSearch :=
  if n % s.candidate = 0 then
    ⟨s.candidate + 1, s.candidate :: s.small,
      if s.candidate * s.candidate = n then s.large else n / s.candidate :: s.large⟩
  else ⟨s.candidate + 1, s.small, s.large⟩

def turn? (n : ℕ) (s : DivisorSearch) : Option DivisorSearch :=
  if s.candidate * s.candidate ≤ n then some (s.next n) else none

/-- The divisors found, in the order in which they are listed at the end. -/
def listed (s : DivisorSearch) : List ℕ := s.small.reverse ++ s.large

theorem candidate_next (n : ℕ) (s : DivisorSearch) : (s.next n).candidate = s.candidate + 1 := by
  unfold next
  split <;> rfl

theorem divisorsFrom_succ {n : ℕ} {s : DivisorSearch} (hroot : s.candidate * s.candidate ≤ n)
    (fuel : ℕ) : divisorsFrom n (fuel + 1) s.candidate s.small s.large =
      divisorsFrom n fuel (s.next n).candidate (s.next n).small (s.next n).large := by
  rw [divisorsFrom, if_pos hroot]
  unfold next
  split <;> rfl

/-- The recursion returns what the loop has found when it stops, after one turn for each number from the
candidate up to the root. -/
theorem divisorsFrom_stopsAfter {n fuel : ℕ} {s : DivisorSearch} (hfuel : n < s.candidate + fuel) :
    ∃ t, StopsAfter (turn? n) (n.sqrt + 1 - s.candidate) s t ∧
      divisorsFrom n fuel s.candidate s.small s.large = (t.small.reverse, t.large) := by
  by_cases hroot : s.candidate * s.candidate ≤ n
  · have hbelow : s.candidate ≤ n.sqrt := Nat.le_sqrt.mpr hroot
    have hcount : n.sqrt + 1 - s.candidate = n.sqrt + 1 - (s.next n).candidate + 1 := by
      rw [candidate_next]
      omega
    cases fuel with
    | zero =>
      have hself := n.sqrt_le_self
      omega
    | succ fuel =>
      have hnext : n < (s.next n).candidate + fuel := by
        rw [candidate_next]
        omega
      obtain ⟨t, hstops, heq⟩ := divisorsFrom_stopsAfter hnext
      rw [hcount, divisorsFrom_succ hroot]
      exact ⟨t, hstops.turn (if_pos hroot), heq⟩
  · have habove : ¬ s.candidate ≤ n.sqrt := fun h => hroot (Nat.le_sqrt.mp h)
    have hcount : n.sqrt + 1 - s.candidate = 0 := by omega
    refine ⟨s, hcount ▸ .here (if_neg hroot), ?_⟩
    cases fuel with
    | zero => rfl
    | succ fuel => rw [divisorsFrom, if_neg hroot]

end DivisorSearch

/-- Where the search for prime factors stands: whether it is about to divide, or to see if the candidate
is past the root; what is left of the number; the candidate; and the factors found, the last one first. -/
structure PrimeSearch where
  dividing : Bool
  left : ℕ
  candidate : ℕ
  found : List ℕ

namespace PrimeSearch

def start (n : ℕ) : PrimeSearch := ⟨false, n, 2, []⟩

def turn? : PrimeSearch → Option PrimeSearch
  | ⟨false, n, d, found⟩ => if d * d ≤ n then some ⟨true, n, d, found⟩ else none
  | ⟨true, n, d, found⟩ =>
    if n % d = 0 then some ⟨true, n / d, d, d :: found⟩ else some ⟨false, n, d + 1, found⟩

/-- The factors found and what is left, if it is more than one. -/
def listed (s : PrimeSearch) : List ℕ :=
  s.found.reverse ++ if 1 < s.left then [s.left] else []

/-- Whether a search can go on: what is left is positive, and a division makes it smaller. -/
structure IsOpen (s : PrimeSearch) : Prop where
  two_le : 2 ≤ s.candidate
  pos : 0 < s.left

/-- How many turns a search has left at most. A candidate that divides takes the logarithm of what is left
down, and one that does not comes closer to the root. -/
def remaining : PrimeSearch → ℕ
  | ⟨false, n, d, _⟩ => 2 * (n.sqrt + 2 - d) + Nat.log 2 n
  | ⟨true, n, d, _⟩ => 2 * (n.sqrt + 1 - d) + 1 + Nat.log 2 n

theorem log_div_lt {n d : ℕ} (hd : 2 ≤ d) (hn : d ≤ n) : Nat.log 2 (n / d) < Nat.log 2 n := by
  have hle : Nat.log 2 (n / d) ≤ Nat.log 2 (n / 2) :=
    Nat.log_mono_right (Nat.div_le_div_left hd Nat.two_pos)
  have hpos : 0 < Nat.log 2 n := Nat.log_pos Nat.one_lt_two (hd.trans hn)
  rw [Nat.log_div_base] at hle
  omega

/-- Every turn of an open search leaves it open, with fewer turns to go. -/
theorem isOpen_turn {s t : PrimeSearch} (hs : s.IsOpen) (hturn : s.turn? = some t) :
    t.IsOpen ∧ t.remaining < s.remaining := by
  obtain ⟨dividing, n, d, found⟩ := s
  obtain ⟨hd, hn⟩ := hs
  dsimp only at hd hn
  cases dividing with
  | false =>
    rw [turn?] at hturn
    split at hturn
    · next hroot =>
      obtain rfl := Option.some.inj hturn
      have hbelow : d ≤ n.sqrt := Nat.le_sqrt.mpr hroot
      refine ⟨⟨hd, hn⟩, ?_⟩
      rw [remaining, remaining]
      omega
    · cases hturn
  | true =>
    rw [turn?] at hturn
    split at hturn
    · next hmod =>
      obtain rfl := Option.some.inj hturn
      have hle : d ≤ n := Nat.le_of_dvd hn (Nat.dvd_of_mod_eq_zero hmod)
      have hsqrt : (n / d).sqrt ≤ n.sqrt := Nat.sqrt_le_sqrt (Nat.div_le_self n d)
      have hlog := log_div_lt hd hle
      refine ⟨⟨hd, Nat.div_pos hle (by omega)⟩, ?_⟩
      rw [remaining, remaining]
      omega
    · obtain rfl := Option.some.inj hturn
      refine ⟨⟨Nat.le_succ_of_le hd, hn⟩, ?_⟩
      rw [remaining, remaining]
      omega

variable {n d fuel : ℕ}

/-- Dividing out is what the loop does until the candidate no longer divides. -/
theorem divideOut_stopsAfter {found : List ℕ} {k : ℕ} {t : PrimeSearch} (hd : 2 ≤ d) (hn : 0 < n)
    (hfuel : n ≤ fuel)
    (h : StopsAfter turn? k
      ⟨false, (divideOut d fuel n found).2, d + 1, (divideOut d fuel n found).1⟩ t) :
    ∃ k, StopsAfter turn? k ⟨true, n, d, found⟩ t := by
  induction fuel generalizing n found with
  | zero => omega
  | succ fuel ih =>
    rw [divideOut] at h
    by_cases hmod : n % d = 0
    · have hle : d ≤ n := Nat.le_of_dvd hn (Nat.dvd_of_mod_eq_zero hmod)
      have hpos : 0 < n / d := Nat.div_pos hle (by omega)
      have hlt : n / d < n := Nat.div_lt_self hn hd
      rw [if_pos hmod] at h
      obtain ⟨k, hk⟩ := ih hpos (by omega) h
      exact ⟨k + 1, hk.turn (if_pos hmod)⟩
    · rw [if_neg hmod] at h
      exact ⟨k + 1, h.turn (if_neg hmod)⟩

/-- The recursion returns what the loop has found and left when it stops. -/
theorem primesFrom_stopsAfter {found : List ℕ} (hd : 2 ≤ d) (hn : 0 < n) (hfuel : n ≤ d + fuel)
    (h : IsRough d n) :
    ∃ k t, StopsAfter turn? k ⟨false, n, d, found⟩ t ∧
      primesFrom fuel n d found = (t.found.reverse, t.left) := by
  induction fuel generalizing n d found with
  | zero =>
    have hsq : d * 2 ≤ d * d := Nat.mul_le_mul_left d hd
    have hroot : ¬ d * d ≤ n := by omega
    exact ⟨0, _, .here (if_neg hroot), rfl⟩
  | succ fuel ih =>
    rw [primesFrom]
    by_cases hroot : d * d ≤ n
    · obtain ⟨hout, hnot⟩ := divideOut_splits hd hn (Nat.le_refl n) h found
      have hle : (divideOut d n n found).2 ≤ n := Nat.le_of_dvd hn hout.dvd
      obtain ⟨k, t, hrest, heq⟩ := ih (by omega) hout.pos (by omega)
        ((h.of_dvd hout.dvd).succ hnot)
      obtain ⟨k, hdivide⟩ := divideOut_stopsAfter hd hn (Nat.le_refl n) hrest
      rw [if_pos hroot]
      exact ⟨k + 1, t, hdivide.turn (if_pos hroot), heq⟩
    · rw [if_neg hroot]
      exact ⟨0, _, .here (if_neg hroot), rfl⟩

end PrimeSearch

end Divisor

end LoopTiling
