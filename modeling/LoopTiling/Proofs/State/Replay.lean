import Mathlib.Data.List.Forall2
import LoopTiling.Proofs.State.Setup

/-!
# Replaying the last calls

Of the calls that return in a run only the last one for the whole object and, for each level, the
last one after it matter: an object that receives these alone, the levels in ascending order,
answers every question in the same way. A call that fails changes nothing, and calls for different
levels may be made in either order. The levels are plain whole numbers that can be shown.
-/
namespace LoopTiling

variable {σ ι κ ν β : Type}

/-- The last call for the whole object and, for each level, the last call after it. -/
structure LastCalls (ι κ : Type) where
  init : Option ι := none
  levels : LevelTable κ := []

namespace LastCalls

def add (last : LastCalls ι κ) : Call ι κ → LastCalls ι κ
  | .init arg => ⟨some arg, []⟩
  | .level level arg =>
    match level.numeral? with
    | some l => { last with levels := last.levels.set l arg }
    | none => last

def levelCalls (t : LevelTable κ) : List (Call ι κ) := t.map fun e => .level e.1.toValue e.2

def calls (last : LastCalls ι κ) : List (Call ι κ) :=
  last.init.toList.map .init ++ levelCalls last.levels

end LastCalls

def lastCalls (cs : List (Call ι κ)) : List (Call ι κ) := (cs.foldl LastCalls.add {}).calls

section Alike

variable {α : Type} {R : ℤ → α → β → Prop}

/-- Whether two entries are for the same plain level and hold what belongs together. -/
def Alike (R : ℤ → α → β → Prop) (e : Numeral × α) (f : Numeral × β) : Prop :=
  ∃ n : ℤ, e.1 = .plain n ∧ f.1 = .plain n ∧ R n e.2 f.2

theorem forall₂_set {t : LevelTable α} {t' : LevelTable β} (h : List.Forall₂ (Alike R) t t') {n : ℤ}
    {a : α} {b : β} (hab : R n a b) :
    List.Forall₂ (Alike R) (t.set (.plain n) a) (t'.set (.plain n) b) := by
  have hnew : Alike R (.plain n, a) (.plain n, b) := ⟨n, rfl, rfl, hab⟩
  induction h with
  | nil => exact .cons hnew .nil
  | @cons e f t t' hef ht ih =>
    obtain ⟨l, a'⟩ := e
    obtain ⟨l', b'⟩ := f
    obtain ⟨m, rfl, rfl, -⟩ := id hef
    rw [LevelTable.set, LevelTable.set]
    by_cases hm : m = n
    · subst hm
      rw [if_pos rfl, if_pos rfl]
      exact .cons hnew ht
    · have hne : (Numeral.plain m).toInt ≠ (Numeral.plain n).toInt := hm
      rw [if_neg hne, if_neg hne]
      split
      · exact .cons hnew (.cons hef ht)
      · exact .cons hef ih

end Alike

theorem Reading.entry_eq (r : Reading ι κ ν β) {b : ν} {l : Numeral} {arg : κ} {e : Numeral × β}
    (h : r.entry b l.toValue arg = .ok e) : e.1 = l := by
  have hl := r.numeral_of_entry h
  rw [Value.numeral?_toValue] at hl
  exact (Option.some.inj hl).symm

theorem Reading.step_comm (r : Reading ι κ ν β) {l l' : Numeral} (hne : l.toInt ≠ l'.toInt)
    (arg arg' : κ) (u : Setup ν β) :
    r.step (r.step u (.level l.toValue arg)) (.level l'.toValue arg') =
      r.step (r.step u (.level l'.toValue arg')) (.level l.toValue arg) := by
  cases he : r.entry u.base l.toValue arg with
  | error fault => cases he' : r.entry u.base l'.toValue arg' <;> simp [step, next, he, he']
  | ok e =>
    cases he' : r.entry u.base l'.toValue arg' with
    | error fault => simp [step, next, he, he']
    | ok e' =>
      have hlevels : e.1.toInt ≠ e'.1.toInt := by rwa [r.entry_eq he, r.entry_eq he']
      simp [step, next, he, he', LevelTable.set_comm hlevels]

variable [Text.DigitLimit]

/-- Whether the level of a call, if it is for one, is a plain whole number that can be shown. -/
def Call.IsPlain : Call ι κ → Prop
  | .init _ => True
  | .level v _ => ∃ l : ℤ, v = .int l ∧ Text.isShort l

namespace Reading

variable (r : Reading ι κ ν β)

def accepted (u : Setup ν β) : List (Call ι κ) → List (Call ι κ)
  | [] => []
  | c :: cs =>
    match r.next u c with
    | .ok u' => c :: accepted u' cs
    | .error _ => accepted u cs

structure Keeps (last : LastCalls ι κ) (u : Setup ν β) : Prop where
  base : last.init.elim (u.base = r.start) fun arg => r.base arg = .ok u.base
  levels : List.Forall₂ (Alike fun n arg x =>
    Text.isShort n ∧ r.entry u.base (.int n) arg = .ok (.plain n, x)) last.levels u.levels

variable {r}

theorem Keeps.next {last : LastCalls ι κ} {u u' : Setup ν β} {c : Call ι κ} (h : r.Keeps last u)
    (hc : c.IsPlain) (hnext : r.next u c = .ok u') : r.Keeps (last.add c) u' := by
  cases c with
  | init arg =>
    obtain ⟨b, hb, rfl⟩ := map_eq_ok.mp hnext
    exact ⟨hb, .nil⟩
  | level level arg =>
    obtain ⟨l, rfl, hshort⟩ := hc
    obtain ⟨⟨l', x⟩, he, rfl⟩ := map_eq_ok.mp hnext
    obtain rfl : Numeral.plain l = l' := Option.some.inj (r.numeral_of_entry he)
    exact ⟨h.base, forall₂_set h.levels ⟨hshort, he⟩⟩

theorem Keeps.foldl {last : LastCalls ι κ} {u : Setup ν β} (h : r.Keeps last u)
    {cs : List (Call ι κ)} (hcs : ∀ c ∈ cs, c.IsPlain) :
    r.Keeps ((r.accepted u cs).foldl LastCalls.add last) (cs.foldl r.step u) := by
  -- A call that is not accepted is in neither of the two folds.
  induction cs generalizing last u with
  | nil => exact h
  | cons c cs ih =>
    rw [List.forall_mem_cons] at hcs
    rw [List.foldl_cons, accepted]
    cases hc : r.next u c with
    | error fault =>
      rw [step_of_error hc]
      exact ih h hcs.2
    | ok u' =>
      rw [step_of_next hc]
      exact ih (h.next hcs.1 hc) hcs.2

theorem Keeps.isPlain {last : LastCalls ι κ} {u : Setup ν β} (h : r.Keeps last u) :
    ∀ c ∈ last.calls, c.IsPlain := by
  intro c hc
  rcases List.mem_append.mp hc with hc | hc
  · obtain ⟨arg, -, rfl⟩ := List.mem_map.mp hc
    trivial
  · obtain ⟨e, he, rfl⟩ := List.mem_map.mp hc
    obtain ⟨_, -, n, hn, -, hshort, -⟩ := exists_of_forall₂ h.levels he
    exact ⟨n, congrArg Numeral.toValue hn, hshort⟩

/-- Calls for levels in ascending order are accepted and set up each level as it is asked for. -/
theorem foldl_levelCalls {b : ν} {t : LevelTable κ} {t' : LevelTable β} (before : LevelTable β)
    (h : List.Forall₂ (Alike fun n arg x =>
      Text.isShort n ∧ r.entry b (.int n) arg = .ok (.plain n, x)) t t')
    (hasc : LevelTable.Ascending (before ++ t')) :
    (LastCalls.levelCalls t).foldl r.step ⟨b, before⟩ = ⟨b, before ++ t'⟩ ∧
      r.accepted ⟨b, before⟩ (LastCalls.levelCalls t) = LastCalls.levelCalls t := by
  -- The levels set up so far are all below the next one, which is why it goes to the end.
  induction h generalizing before with
  | nil => exact ⟨by rw [List.append_nil]; rfl, rfl⟩
  | @cons e f t t' hef ht ih =>
    obtain ⟨l, arg⟩ := e
    obtain ⟨l', x⟩ := f
    obtain ⟨n, rfl, rfl, -, he⟩ := hef
    have habove : ∀ g ∈ before, g.1.toInt < (Numeral.plain n).toInt := fun g hg =>
      (List.pairwise_append.mp hasc).2.2 g hg (.plain n, x) List.mem_cons_self
    have hnext : r.next ⟨b, before⟩ (.level (.int n) arg) =
        .ok ⟨b, before ++ [(.plain n, x)]⟩ := by
      rw [next, he, ← LevelTable.set_of_above (.plain n) x habove]
      rfl
    have hstep := step_of_next hnext
    have happend : before ++ (Numeral.plain n, x) :: t' = before ++ [(.plain n, x)] ++ t' := by simp
    rw [happend] at hasc ⊢
    obtain ⟨hfold, hall⟩ := ih _ hasc
    refine ⟨?_, ?_⟩
    · exact (congrArg (fun u => (LastCalls.levelCalls t).foldl r.step u) hstep).trans hfold
    · have hcons : LastCalls.levelCalls ((Numeral.plain n, arg) :: t) =
          (.level (.int n) arg : Call ι κ) :: LastCalls.levelCalls t := rfl
      rw [hcons, accepted, hnext]
      exact congrArg _ hall

/-- The last calls ask a fresh object for all that has been asked for, and all of them are accepted.
-/
theorem Keeps.replay {last : LastCalls ι κ} {u : Setup ν β} (h : r.Keeps last u)
    (hu : r.Consistent u) : r.run last.calls = u ∧ r.accepted r.fresh last.calls = last.calls := by
  obtain ⟨hfold, hall⟩ := foldl_levelCalls [] h.levels hu.ascending
  have hbase := h.base
  rw [LastCalls.calls, run]
  cases hinit : last.init with
  | none =>
    rw [hinit] at hbase
    have hfresh : r.fresh = ⟨u.base, []⟩ := congrArg (Setup.mk · []) (Eq.symm hbase)
    rw [hfresh]
    exact ⟨hfold, hall⟩
  | some arg =>
    rw [hinit] at hbase
    have hnext : r.next r.fresh (.init arg) = .ok ⟨u.base, []⟩ := by
      rw [Reading.next, hbase]
      rfl
    have hstep := step_of_next hnext
    refine ⟨?_, ?_⟩
    · have hfirst := congrArg (fun u => (LastCalls.levelCalls last.levels).foldl r.step u) hstep
      exact hfirst.trans hfold
    · simp only [Option.toList_some, List.map_cons, List.map_nil, List.singleton_append, accepted,
        hnext, hall]

end Reading

namespace Kind

variable (k : Kind σ ι κ)

def returned (s : σ) : List (Call ι κ) → List (Call ι κ)
  | [] => []
  | c :: cs =>
    match k.call c s with
    | .ok _ s' => c :: returned s' cs
    | .error _ s' => returned s' cs

/-- Whether the history of an object does not matter beyond the last calls that have returned. -/
structure HistoryFree : Prop where
  /-- A call that fails leaves the object as it was. -/
  failed {cs : List (Call ι κ)} {c : Call ι κ} {fault : Fault} {s : σ} : c.IsPlain →
    k.call c (k.run cs) = .error fault s → s = k.run cs
  /-- The last calls that have returned return for a fresh object as well. -/
  returned {cs : List (Call ι κ)} : (∀ c ∈ cs, c.IsPlain) →
    k.returned k.fresh (lastCalls (k.returned k.fresh cs)) = lastCalls (k.returned k.fresh cs)
  /-- After them the fresh object answers every question like the object after the whole run. -/
  answer {cs : List (Call ι κ)} : (∀ c ∈ cs, c.IsPlain) → ∀ q : Query,
    (k.space (k.run cs)).answer q =
      (k.space (k.run (lastCalls (k.returned k.fresh cs)))).answer q
  /-- Calls for different levels may be made in either order, whatever calls follow them. -/
  comm {cs rest : List (Call ι κ)} {l l' : ℤ} {arg arg' : κ} : l ≠ l' → ∀ q : Query,
    (k.space (k.run (cs ++ .level (.int l) arg :: .level (.int l') arg' :: rest))).answer q =
      (k.space (k.run (cs ++ .level (.int l') arg' :: .level (.int l) arg :: rest))).answer q

variable {k} {r : Reading ι κ ν β} {Rep : σ → Setup ν β → Prop}

/-- Whether accepted calls return, those for a level if the level is a plain number that can be
shown. -/
structure Returns (k : Kind σ ι κ) (r : Reading ι κ ν β) (Rep : σ → Setup ν β → Prop) : Prop where
  init {s : σ} {arg : ι} {b : ν} : r.base arg = .ok b →
    ∃ journal s', k.call (.init arg) s = .ok journal s'
  level {s : σ} {u : Setup ν β} {n : ℤ} {arg : κ} {e : Numeral × β} : Rep s u → Text.isShort n →
    r.entry u.base (.int n) arg = .ok e →
    ∃ journal s', k.call (.level (.int n) arg) s = .ok journal s'

theorem Returns.returns (h : k.Returns r Rep) {s : σ} {u u' : Setup ν β} {c : Call ι κ}
    (hs : Rep s u) (hc : c.IsPlain) (hnext : r.next u c = .ok u') :
    ∃ journal s', k.call c s = .ok journal s' := by
  cases c with
  | init arg =>
    obtain ⟨b, hb, -⟩ := map_eq_ok.mp hnext
    exact h.init hb
  | level level arg =>
    obtain ⟨n, rfl, hshort⟩ := hc
    obtain ⟨e, he, -⟩ := map_eq_ok.mp hnext
    exact h.level hs hshort he

theorem Holds.returned_eq (h : k.Holds r Rep) (hret : k.Returns r Rep) {s : σ} {u : Setup ν β}
    (hu : r.Consistent u) (hs : Rep s u) {cs : List (Call ι κ)} (hcs : ∀ c ∈ cs, c.IsPlain) :
    k.returned s cs = r.accepted u cs := by
  induction cs generalizing s u with
  | nil => rfl
  | cons c cs ih =>
    rw [List.forall_mem_cons] at hcs
    rw [Kind.returned, Reading.accepted]
    cases hc : r.next u c with
    | error fault =>
      rw [h.refused hs hc]
      exact ih hu hs hcs.2
    | ok u' =>
      obtain ⟨journal, s', hcall⟩ := hret.returns hs hcs.1 hc
      have hs' := h.accepted hu hs hc
      rw [Update.after, hcall] at hs'
      rw [hcall]
      exact congrArg _ (ih (hu.next hc) hs' hcs.2)

theorem Holds.eq_of_failed (h : k.Holds r Rep) (hret : k.Returns r Rep) {cs : List (Call ι κ)}
    {c : Call ι κ} {fault : Fault} {s : σ} (hc : c.IsPlain)
    (herr : k.call c (k.run cs) = .error fault s) : s = k.run cs := by
  have hs := h.run cs
  cases hnext : r.next (r.run cs) c with
  | error fault' =>
    rw [h.refused hs hnext, EStateM.Result.error.injEq] at herr
    exact herr.2.symm
  | ok u' =>
    obtain ⟨journal, s', hcall⟩ := hret.returns hs hc hnext
    rw [hcall] at herr
    cases herr

theorem Holds.keeps (h : k.Holds r Rep) (hret : k.Returns r Rep) {cs : List (Call ι κ)}
    (hcs : ∀ c ∈ cs, c.IsPlain) :
    r.Keeps ((k.returned k.fresh cs).foldl LastCalls.add {}) (r.run cs) := by
  rw [h.returned_eq hret (Reading.consistent_of_nil r.start) h.fresh hcs]
  have hnone : r.Keeps {} r.fresh := ⟨rfl, .nil⟩
  exact hnone.foldl hcs

/-- The last calls that have returned ask for all that the whole run asks for, and they return
again. -/
theorem Holds.replay (h : k.Holds r Rep) (hret : k.Returns r Rep) {cs : List (Call ι κ)}
    (hcs : ∀ c ∈ cs, c.IsPlain) : r.run (lastCalls (k.returned k.fresh cs)) = r.run cs ∧
      k.returned k.fresh (lastCalls (k.returned k.fresh cs)) =
        lastCalls (k.returned k.fresh cs) := by
  have hlast := h.keeps hret hcs
  obtain ⟨hrun, haccepted⟩ := hlast.replay (Reading.consistent_run cs)
  refine ⟨hrun, ?_⟩
  rw [lastCalls, h.returned_eq hret (Reading.consistent_of_nil r.start) h.fresh hlast.isPlain]
  exact haccepted

/-- The history of an object that holds what its calls ask for does not matter, if accepted calls
return and what is asked for decides all answers. -/
theorem Holds.historyFree (h : k.Holds r Rep) (hret : k.Returns r Rep)
    (hanswer : ∀ {s t u}, r.Consistent u → Rep s u → Rep t u →
      ∀ q, (k.space s).answer q = (k.space t).answer q) : k.HistoryFree := by
  have hsame {cs cs' : List (Call ι κ)} (he : r.run cs' = r.run cs) (q : Query) :
      (k.space (k.run cs)).answer q = (k.space (k.run cs')).answer q :=
    hanswer (Reading.consistent_run cs) (h.run cs) (he ▸ h.run cs') q
  refine ⟨h.eq_of_failed hret, fun hcs => (h.replay hret hcs).2,
    fun hcs => hsame (h.replay hret hcs).1, fun {cs rest l l' arg arg'} hne => hsame ?_⟩
  have hlevels : (Numeral.plain l).toInt ≠ (Numeral.plain l').toInt := hne
  have hcomm := r.step_comm hlevels arg arg' (cs.foldl r.step r.fresh)
  simp only [Reading.run, List.foldl_append, List.foldl_cons]
  exact congrArg (rest.foldl r.step) hcomm.symm

end Kind

end LoopTiling
