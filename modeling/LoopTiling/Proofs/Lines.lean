import Mathlib.Data.List.Basic
import LoopTiling.Mapping
import LoopTiling.Proofs.Numerals

/-!
# Taking texts apart

A text in which a character stands once behind a part without it can be cut there in one way only. So
the lines behind the first one determine all that follows the first line break, and a list of parts
between commas can be read back, where a dash stands for the empty list.
-/
namespace LoopTiling

section Cuts

variable {α : Type}

theorem append_cons_inj_of_not_mem {x : α} {a b u v : List α} (ha : x ∉ a) (hb : x ∉ b) :
    a ++ x :: u = b ++ x :: v ↔ a = b ∧ u = v := by
  induction a generalizing b with
  | nil =>
    cases b with
    | nil => simp
    | cons y b =>
      have hne : x ≠ y := fun he => hb (he ▸ List.mem_cons_self)
      simp [hne]
  | cons y a ih =>
    rw [List.mem_cons, not_or] at ha
    cases b with
    | nil => simp [Ne.symm ha.1]
    | cons z b =>
      rw [List.mem_cons, not_or] at hb
      simp [ih ha.2 hb.2, and_assoc]

theorem splitOn_injective [BEq α] [LawfulBEq α] (x : α) :
    Function.Injective fun xs : List α => xs.splitOn x := by
  intro xs ys he
  have hjoined := congrArg (List.intercalate [x]) he
  simpa only [List.intercalate_splitOn] using hjoined

end Cuts

namespace Text

/-- The lines of a text behind the first one. -/
def linesAfterFirst (s : String) : List (List Char) := (s.toList.splitOn '\n').tail

/-- Lines, each behind a line break. -/
def broken (lines : List String) : List Char := lines.flatMap fun line => '\n' :: line.toList

theorem broken_append (lines lines' : List String) :
    broken (lines ++ lines') = broken lines ++ broken lines' := List.flatMap_append

theorem toList_lines (line : String) (lines : List String) :
    ("\n".intercalate (line :: lines)).toList = line.toList ++ broken lines := by
  induction lines generalizing line with
  | nil => simp [broken]
  | cons line' lines ih =>
    rw [String.intercalate_cons_cons, String.toList_append, String.toList_append, ih]
    simp [broken]

/-- Where two texts agree from a place in the first line on up to a line break, the lines behind the first
determine what follows that break. -/
theorem eq_of_linesAfterFirst_eq {s s' : String} {a a' common u u' : List Char} (ha : '\n' ∉ a)
    (ha' : '\n' ∉ a') (hs : s.toList = a ++ (common ++ '\n' :: u))
    (hs' : s'.toList = a' ++ (common ++ '\n' :: u')) (he : linesAfterFirst s = linesAfterFirst s') :
    u = u' := by
  -- The line break behind `common` need not be the first one.
  obtain ⟨first, rest, hfirst, hnot⟩ :=
    List.eq_append_cons_of_mem (List.mem_append_right common (List.mem_singleton_self '\n'))
  have hlines {t : String} {b v : List Char} (hb : '\n' ∉ b) (ht : t.toList = b ++ (common ++ '\n' :: v)) :
      linesAfterFirst t = (rest ++ v).splitOn '\n' := by
    have hcommon : common ++ '\n' :: v = first ++ '\n' :: (rest ++ v) := by
      rw [← List.singleton_append, ← List.append_assoc, hfirst, List.append_assoc, List.cons_append]
    have hline : '\n' ∉ b ++ first := by
      rw [List.mem_append, not_or]
      exact ⟨hb, hnot⟩
    rw [linesAfterFirst, ht, hcommon, ← List.append_assoc,
      List.splitOn_append_cons_self_of_not_mem hline, List.tail_cons]
  rw [hlines ha hs, hlines ha' hs'] at he
  exact List.append_cancel_left (splitOn_injective '\n' he)

/-- Behind the first part every comma is followed by a blank. -/
theorem toList_listed (part : String) (parts : List String) :
    (", ".intercalate (part :: parts)).toList =
      [','].intercalate (part.toList :: parts.map fun part => ' ' :: part.toList) := by
  induction parts generalizing part with
  | nil => simp
  | cons part' parts ih =>
    have hcomma : ", ".toList = [',', ' '] := rfl
    rw [String.intercalate_cons_cons, String.toList_append, String.toList_append, ih, hcomma,
      List.map_cons, List.intercalate_cons_cons]
    cases parts <;> simp

theorem not_mem_intercalate {c : Char} {separator : String} (hseparator : c ∉ separator.toList)
    {parts : List String} (hparts : ∀ part ∈ parts, c ∉ part.toList) :
    c ∉ (separator.intercalate parts).toList := by
  induction parts with
  | nil => simp
  | cons part parts ih =>
    rw [List.forall_mem_cons] at hparts
    cases parts with
    | nil => simpa using hparts.1
    | cons part' parts =>
      rw [String.intercalate_cons_cons, String.toList_append, String.toList_append, List.mem_append,
        List.mem_append, not_or, not_or]
      exact ⟨⟨hparts.1, hseparator⟩, ih hparts.2⟩

/-- Parts between commas, or a dash where there is none. -/
def listed (parts : List String) : String := Mapping.orDash (", ".intercalate parts)

theorem listed_cons {part : String} (hpart : part ≠ "") (parts : List String) :
    listed (part :: parts) = ", ".intercalate (part :: parts) := by
  have hne : (", ".intercalate (part :: parts)).isEmpty = false := by
    rw [String.isEmpty_eq_false_iff]
    cases parts with
    | nil => simpa using hpart
    | cons part' parts => simp [hpart]
  rw [listed, Mapping.orDash, hne]
  rfl

theorem splitOn_listed {part : String} {parts : List String}
    (hparts : ∀ q ∈ part :: parts, ',' ∉ q.toList) :
    (", ".intercalate (part :: parts)).toList.splitOn ',' =
      part.toList :: parts.map fun part => ' ' :: part.toList := by
  rw [List.forall_mem_cons] at hparts
  rw [toList_listed, List.splitOn_intercalate ',' ?_ (List.cons_ne_nil _ _)]
  refine List.forall_mem_cons.mpr ⟨hparts.1, List.forall_mem_map.mpr fun q hq => ?_⟩
  rw [List.mem_cons, not_or]
  exact ⟨by decide, hparts.2 q hq⟩

/-- Parts without commas that are no dash can be read back. -/
theorem listed_inj {ps qs : List String} (hps : ∀ s ∈ ps, ',' ∉ s.toList ∧ '=' ∈ s.toList)
    (hqs : ∀ s ∈ qs, ',' ∉ s.toList ∧ '=' ∈ s.toList) : listed ps = listed qs ↔ ps = qs := by
  have hne {s : String} (hs : '=' ∈ s.toList) : s ≠ "" := by
    rintro rfl
    simp at hs
  have hmem {part : String} {parts : List String} (hpart : '=' ∈ part.toList) :
      '=' ∈ (listed (part :: parts)).toList := by
    rw [listed_cons (hne hpart)]
    cases parts with
    | nil => simpa using hpart
    | cons part' parts => simp [hpart]
  have hdash : '=' ∉ (listed []).toList := by decide
  refine ⟨fun he => ?_, congrArg listed⟩
  cases ps with
  | nil =>
    cases qs with
    | nil => rfl
    | cons q qs => exact absurd (he ▸ hmem (hqs q List.mem_cons_self).2) hdash
  | cons p ps =>
    cases qs with
    | nil => exact absurd (he ▸ hmem (hps p List.mem_cons_self).2) hdash
    | cons q qs =>
      rw [listed_cons (hne (hps p List.mem_cons_self).2),
        listed_cons (hne (hqs q List.mem_cons_self).2)] at he
      have hlists := congrArg (fun s : String => s.toList.splitOn ',') he
      simp only [splitOn_listed fun s hs => (hps s hs).1, splitOn_listed fun s hs => (hqs s hs).1,
        List.cons.injEq, String.toList_inj] at hlists
      have hblank : Function.Injective fun part : String => ' ' :: part.toList := fun s t hst =>
        String.toList_inj.mp (List.cons.inj hst).2
      rw [hlists.1, List.map_injective_iff.mpr hblank hlists.2]

end Text

end LoopTiling
