import LoopTiling.Command.Run
import LoopTiling.Proofs.Faults

/-!
# What tasks come to and leave behind

A task is followed from what has been done before it. One that only reports adds records to the journal,
none of them of an error, and comes to a result that does not depend on what has been done before. How a
task ends, with which results and which faults, is known from how its parts do.
-/
namespace LoopTiling.Command

namespace Task

variable {α β : Type}

/-- What a task comes to after what has been done before, and what has been done then. -/
def after (task : Task α) (s : Session) : Except Fault α × Session := task.run.run s

theorem outcome_eq_after (task : Task α) : task.outcome = task.after {} := rfl

@[simp] theorem after_pure (a : α) (s : Session) : (pure a : Task α).after s = (.ok a, s) := rfl

@[simp] theorem after_check (x : Except Fault α) (s : Session) : (check x).after s = (x, s) := rfl

@[simp] theorem after_print (text : String) (s : Session) :
    (print text).after s = (.ok (), { s with printed := s.printed ++ [text ++ "\n"] }) := rfl

@[simp] theorem after_note (records : Journal) (s : Session) :
    (note records).after s = (.ok (), { s with journal := s.journal ++ records }) := rfl

@[simp] theorem after_write (path text : String) (s : Session) :
    (write path text).after s = (.ok (), { s with written := s.written ++ [(path, text)] }) := rfl

theorem after_bind (task : Task α) (f : α → Task β) (s : Session) :
    (task >>= f).after s =
      match task.after s with
      | (.ok a, s') => (f a).after s'
      | (.error fault, s') => (.error fault, s') := by
  simp only [after, ExceptT.run_bind, StateT.run_bind]
  rcases task.run.run s with ⟨_ | _, s'⟩ <;> rfl

theorem after_bind_of_ok {task : Task α} {s s' : Session} {a : α} (h : task.after s = (.ok a, s'))
    (f : α → Task β) : (task >>= f).after s = (f a).after s' := by rw [after_bind, h]

theorem after_bind_of_error {task : Task α} {s s' : Session} {fault : Fault}
    (h : task.after s = (.error fault, s')) (f : α → Task β) :
    (task >>= f).after s = (.error fault, s') := by rw [after_bind, h]

end Task

/-- Whether no record is one of an error. -/
def Calm (records : Journal) : Prop := ∀ r ∈ records, r.severity ≠ .error

theorem calm_nil : Calm [] := fun _ hr => nomatch hr

theorem Calm.append {before after : Journal} (h : Calm before) (h' : Calm after) :
    Calm (before ++ after) := List.forall_mem_append.mpr ⟨h, h'⟩

theorem shown_eq_nil_of_calm {journal : Journal} (h : Calm journal) : journal.shown false = [] := by
  refine List.filter_eq_nil_iff.mpr fun r hr => ?_
  simpa using h r hr

namespace Task

variable {α β : Type}

/-- Whether a task comes to a result and does nothing but report, no errors. -/
def Reports (task : Task α) (x : Except Fault α) : Prop :=
  ∀ s, ∃ records, Calm records ∧ task.after s = (x, { s with journal := s.journal ++ records })

theorem reports_check (x : Except Fault α) : (check x).Reports x :=
  fun s => ⟨[], calm_nil, by simp⟩

theorem reports_pure (a : α) : (pure a : Task α).Reports (.ok a) := reports_check (.ok a)

theorem reports_note {records : Journal} (h : Calm records) : (note records).Reports (.ok ()) :=
  fun s => ⟨records, h, after_note records s⟩

theorem Reports.bind {task : Task α} {x : Except Fault α} {f : α → Task β} {g : α → Except Fault β}
    (h : task.Reports x) (hf : ∀ a, x = .ok a → (f a).Reports (g a)) :
    (task >>= f).Reports (x >>= g) := by
  intro s
  obtain ⟨records, hcalm, hafter⟩ := h s
  cases x with
  | error fault => exact ⟨records, hcalm, after_bind_of_error hafter f⟩
  | ok a =>
    obtain ⟨records', hcalm', hafter'⟩ := hf a rfl { s with journal := s.journal ++ records }
    refine ⟨records ++ records', hcalm.append hcalm', ?_⟩
    rw [after_bind_of_ok hafter, hafter', ← List.append_assoc]
    rfl

/-- Reporting something first changes nothing of a result. -/
theorem Reports.noting {records : Journal} {task : Task α} {x : Except Fault α}
    (hcalm : Calm records) (h : task.Reports x) : (note records >>= fun _ => task).Reports x :=
  (reports_note hcalm).bind fun _ _ => h

/-- Reporting what a result gives, before it is handed on, changes nothing of it. -/
theorem reports_check_note {x : Except Fault α} {records : α → Journal}
    (hcalm : ∀ a, Calm (records a)) :
    (check x >>= fun a => note (records a) >>= fun _ => pure a).Reports x := by
  have h := (reports_check x).bind fun a _ => (reports_pure a).noting (hcalm a)
  cases x <;> exact h

theorem Reports.outcome {task : Task α} {x : Except Fault α} (h : task.Reports x) :
    task.outcome.1 = x := by
  obtain ⟨records, -, hafter⟩ := h {}
  rw [outcome_eq_after, hafter]

variable {P : Fault → Prop} {Q : α → Prop} {R : β → Prop}

/-- Whether a task, whatever has been done before, comes to certain results only and fails with certain
faults only. -/
def Ends (task : Task α) (P : Fault → Prop) (Q : α → Prop) : Prop :=
  ∀ s, FailsOnly P (task.after s).1 ∧ ∀ a, (task.after s).1 = .ok a → Q a

theorem ends_of_after {task : Task α} (h : ∀ s, ∃ a, (task.after s).1 = .ok a ∧ Q a) :
    task.Ends P Q := by
  intro s
  obtain ⟨a, ha, hQ⟩ := h s
  rw [ha]
  exact ⟨failsOnly_ok a, fun b hb => Except.ok.inj hb ▸ hQ⟩

theorem ends_pure {a : α} (h : Q a) : (pure a : Task α).Ends P Q :=
  ends_of_after fun _ => ⟨a, rfl, h⟩

theorem ends_print (text : String) : (print text).Ends P fun _ => True :=
  ends_of_after fun _ => ⟨(), rfl, trivial⟩

theorem ends_note (records : Journal) : (note records).Ends P fun _ => True :=
  ends_of_after fun _ => ⟨(), rfl, trivial⟩

theorem ends_write (path text : String) : (write path text).Ends P fun _ => True :=
  ends_of_after fun _ => ⟨(), rfl, trivial⟩

theorem Reports.ends {task : Task α} {x : Except Fault α} (h : task.Reports x) (hx : FailsOnly P x) :
    task.Ends P fun a => x = .ok a := by
  intro s
  obtain ⟨_, -, hafter⟩ := h s
  rw [hafter]
  exact ⟨hx, fun _ => id⟩

theorem ends_check {x : Except Fault α} (hx : FailsOnly P x) : (check x).Ends P fun a => x = .ok a :=
  (reports_check x).ends hx

theorem ends_check_ok {x : Except Fault α} {a : α} (h : x = .ok a) :
    (check x).Ends P fun b => b = a := ends_of_after fun _ => ⟨a, h, rfl⟩

theorem Ends.mono {task : Task α} {P' : Fault → Prop} {Q' : α → Prop} (h : task.Ends P Q)
    (hP : ∀ fault, P fault → P' fault) (hQ : ∀ a, Q a → Q' a) : task.Ends P' Q' :=
  fun s => ⟨(h s).1.mono hP, fun a ha => hQ a ((h s).2 a ha)⟩

theorem Ends.bind {task : Task α} {f : α → Task β} (h : task.Ends P Q)
    (hf : ∀ a, Q a → (f a).Ends P R) : (task >>= f).Ends P R := by
  intro s
  obtain ⟨herror, hok⟩ := h s
  rw [after_bind]
  rcases hs : task.after s with ⟨fault | a, s'⟩
  · rw [hs] at herror
    exact ⟨failsOnly_error (herror fault rfl), nofun⟩
  · rw [hs] at hok
    exact hf a (hok a rfl) s'

/-- A loop that only does its steps ends as they do. -/
theorem ends_forIn {xs : List α} {f : α → PUnit → Task (ForInStep PUnit)}
    (hf : ∀ a ∈ xs, (f a ⟨⟩).Ends P fun step => step = .yield ⟨⟩) :
    (forIn xs ⟨⟩ f).Ends P fun _ => True := by
  induction xs with
  | nil => exact ends_pure trivial
  | cons a xs ih =>
    rw [List.forall_mem_cons] at hf
    rw [List.forIn_cons]
    refine hf.1.bind ?_
    rintro _ rfl
    exact ih hf.2

end Task

end LoopTiling.Command
