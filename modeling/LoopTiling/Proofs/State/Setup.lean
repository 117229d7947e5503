import LoopTiling.Proofs.State.Tables
import LoopTiling.Space.Query

/-!
# What calls set up

The calls on an object are read as what they ask for: a call for the whole object gives it a new
base and forgets its levels, a call for a level replaces what is asked for there, and a call that
is not accepted changes nothing. Objects of a kind hold what their calls ask for if a call that is
not accepted is refused before it writes and every other call writes what it asks for. Then they
do so after every run, whatever calls have failed in it.
-/
namespace LoopTiling

variable {σ ι κ ν β : Type}

/-- What calls have asked for: the base of the object and, since then, its levels. -/
structure Setup (ν β : Type) where
  base : ν
  levels : LevelTable β := []

/-- How the calls on an object are read. -/
structure Reading (ι κ ν β : Type) where
  start : ν
  /-- The base that a call for the whole object asks for. -/
  base : ι → Except Fault ν
  /-- The level that a call is for and what it asks for there. -/
  entry : ν → Value → κ → Except Fault (Numeral × β)
  numeral_of_entry {b : ν} {level : Value} {arg : κ} {e : Numeral × β} :
    entry b level arg = .ok e → level.numeral? = some e.1

namespace Reading

variable (r : Reading ι κ ν β)

def fresh : Setup ν β := ⟨r.start, []⟩

def next (u : Setup ν β) : Call ι κ → Except Fault (Setup ν β)
  | .init arg => (⟨·, []⟩) <$> r.base arg
  | .level level arg =>
    (fun e => { u with levels := u.levels.set e.1 e.2 }) <$> r.entry u.base level arg

def step (u : Setup ν β) (c : Call ι κ) : Setup ν β :=
  match r.next u c with
  | .ok u' => u'
  | .error _ => u

def run (cs : List (Call ι κ)) : Setup ν β := cs.foldl r.step r.fresh

/-- Whether levels are ascending and each of them is as some call asks for it. -/
structure Consistent (u : Setup ν β) : Prop where
  ascending : u.levels.Ascending
  asked : ∀ e ∈ u.levels, ∃ level arg l,
    r.entry u.base level arg = .ok (l, e.2) ∧ l.toInt = e.1.toInt

variable {r} {u u' : Setup ν β} {c : Call ι κ}

theorem step_of_next (h : r.next u c = .ok u') : r.step u c = u' := by
  rw [step, h]

theorem step_of_error {fault : Fault} (h : r.next u c = .error fault) : r.step u c = u := by
  rw [step, h]

theorem consistent_of_nil (b : ν) : r.Consistent ⟨b, []⟩ :=
  ⟨List.Pairwise.nil, List.forall_mem_nil _⟩

theorem Consistent.next (hu : r.Consistent u) (h : r.next u c = .ok u') : r.Consistent u' := by
  cases c with
  | init arg =>
    obtain ⟨b, -, rfl⟩ := map_eq_ok.mp h
    exact consistent_of_nil b
  | level level arg =>
    obtain ⟨⟨l, x⟩, he, rfl⟩ := map_eq_ok.mp h
    refine ⟨LevelTable.ascending_set l x hu.ascending, fun f hf => ?_⟩
    rcases LevelTable.mem_set hf with ⟨hl, hx⟩ | hf
    · exact ⟨level, arg, l, by rw [he, hx], hl.symm⟩
    · exact hu.asked f hf

theorem Consistent.step (hu : r.Consistent u) (c : Call ι κ) : r.Consistent (r.step u c) := by
  cases h : r.next u c with
  | error fault => rwa [step_of_error h]
  | ok u' =>
    rw [step_of_next h]
    exact hu.next h

theorem Consistent.foldl (hu : r.Consistent u) (cs : List (Call ι κ)) :
    r.Consistent (cs.foldl r.step u) := by
  induction cs generalizing u with
  | nil => exact hu
  | cons c cs ih => exact ih (hu.step c)

theorem consistent_run (cs : List (Call ι κ)) : r.Consistent (r.run cs) :=
  (consistent_of_nil r.start).foldl cs

/-- The base is the one of the start, or some call has asked for it. -/
theorem base_foldl (cs : List (Call ι κ)) : (cs.foldl r.step u).base = u.base ∨
    ∃ arg, r.base arg = .ok (cs.foldl r.step u).base := by
  induction cs generalizing u with
  | nil => exact .inl rfl
  | cons c cs ih =>
    rcases ih (u := r.step u c) with hbase | hasked
    · rw [List.foldl_cons, hbase]
      cases hc : r.next u c with
      | error fault =>
        rw [step_of_error hc]
        exact .inl rfl
      | ok u' =>
        rw [step_of_next hc]
        cases c with
        | init arg =>
          obtain ⟨b, hb, rfl⟩ := map_eq_ok.mp hc
          exact .inr ⟨arg, hb⟩
        | level level arg =>
          obtain ⟨e, -, rfl⟩ := map_eq_ok.mp hc
          exact .inl rfl
    · exact .inr hasked

theorem base_run (cs : List (Call ι κ)) :
    (r.run cs).base = r.start ∨ ∃ arg, r.base arg = .ok (r.run cs).base :=
  base_foldl cs

end Reading

/-- A kind of objects: how one is made, what its calls do, and the space that it is. -/
structure Kind (σ ι κ : Type) where
  fresh : σ
  call : Call ι κ → Update σ Journal
  space : σ → Space

namespace Kind

variable (k : Kind σ ι κ)

/-- An object after calls, of which any may fail. -/
def after (s : σ) (cs : List (Call ι κ)) : σ := cs.foldl (fun s c => (k.call c).after s) s

def run (cs : List (Call ι κ)) : σ := k.after k.fresh cs

/-- Whether an object of a kind holds what its calls ask for: a call that is not accepted fails
before it writes anything, and after any other call the object holds what it asks for. -/
structure Holds (r : Reading ι κ ν β) (Rep : σ → Setup ν β → Prop) : Prop where
  fresh : Rep k.fresh r.fresh
  init_refused {s : σ} {arg : ι} {fault : Fault} : r.base arg = .error fault →
    k.call (.init arg) s = .error fault s
  init_accepted {s : σ} {arg : ι} {b : ν} : r.base arg = .ok b →
    Rep ((k.call (.init arg)).after s) ⟨b, []⟩
  level_refused {s : σ} {u : Setup ν β} {level : Value} {arg : κ} {fault : Fault} : Rep s u →
    r.entry u.base level arg = .error fault → k.call (.level level arg) s = .error fault s
  level_accepted {s : σ} {u : Setup ν β} {level : Value} {arg : κ} {e : Numeral × β} :
    u.levels.Ascending → Rep s u → r.entry u.base level arg = .ok e →
    Rep ((k.call (.level level arg)).after s) { u with levels := u.levels.set e.1 e.2 }

variable {k} {r : Reading ι κ ν β} {Rep : σ → Setup ν β → Prop} {s : σ} {u u' : Setup ν β}
  {c : Call ι κ}

theorem Holds.refused (h : k.Holds r Rep) (hs : Rep s u) {fault : Fault}
    (hc : r.next u c = .error fault) : k.call c s = .error fault s := by
  cases c with
  | init arg => exact h.init_refused (map_eq_error.mp hc)
  | level level arg => exact h.level_refused hs (map_eq_error.mp hc)

theorem Holds.accepted (h : k.Holds r Rep) (hu : r.Consistent u) (hs : Rep s u)
    (hc : r.next u c = .ok u') : Rep ((k.call c).after s) u' := by
  cases c with
  | init arg =>
    obtain ⟨b, hb, rfl⟩ := map_eq_ok.mp hc
    exact h.init_accepted hb
  | level level arg =>
    obtain ⟨e, he, rfl⟩ := map_eq_ok.mp hc
    exact h.level_accepted hu.ascending hs he

theorem Holds.step (h : k.Holds r Rep) (hu : r.Consistent u) (hs : Rep s u) (c : Call ι κ) :
    Rep ((k.call c).after s) (r.step u c) := by
  cases hc : r.next u c with
  | error fault => rwa [Update.after, h.refused hs hc, Reading.step_of_error hc]
  | ok u' =>
    rw [Reading.step_of_next hc]
    exact h.accepted hu hs hc

theorem Holds.foldl (h : k.Holds r Rep) (hu : r.Consistent u) (hs : Rep s u)
    (cs : List (Call ι κ)) : Rep (k.after s cs) (cs.foldl r.step u) := by
  induction cs generalizing s u with
  | nil => exact hs
  | cons c cs ih => exact ih (hu.step c) (h.step hu hs c)

/-- After every run an object holds what the calls of the run ask for. -/
theorem Holds.run (h : k.Holds r Rep) (cs : List (Call ι κ)) : Rep (k.run cs) (r.run cs) :=
  h.foldl (Reading.consistent_of_nil r.start) h.fresh cs

end Kind

end LoopTiling
