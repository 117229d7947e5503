import Mathlib
import LoopTiling.Value.Access

/-!
# How a dimension may be spelled

A value names a dimension exactly if it is the dimension itself, the number of its place, or its letter
in either case with blanks around it.
-/
namespace LoopTiling

namespace Text

variable {drops : Char → Bool} {s : List Char} {x : Char}

theorem dropWhile_eq_cons_iff {rest : List Char} : s.dropWhile drops = x :: rest ↔
    ∃ before, s = before ++ x :: rest ∧ (∀ c ∈ before, drops c) ∧ drops x = false := by
  constructor
  · intro h
    have hne : s.dropWhile drops ≠ [] := by simp [h]
    refine ⟨s.takeWhile drops, ?_, fun c => List.mem_takeWhile_imp, ?_⟩
    · rw [← h, List.takeWhile_append_dropWhile]
    · have hhead := List.head_dropWhile_not drops hne
      simpa only [h, List.head_cons] using hhead
  · rintro ⟨before, rfl, hbefore, hx⟩
    rw [List.dropWhile_append_of_pos hbefore, List.dropWhile_cons_of_neg (by simp [hx])]

/-- What is left of a text is one character exactly if the text has nothing around it that stays. -/
theorem trimBy_eq_singleton_iff : trimBy drops s = [x] ↔
    ∃ before after, s = before ++ x :: after ∧ (∀ c ∈ before, drops c) ∧ (∀ c ∈ after, drops c) ∧
      drops x = false := by
  have hreverse : trimBy drops s = [x] ↔ (s.dropWhile drops).reverse.dropWhile drops = [x] := by
    rw [trimBy, List.reverse_eq_iff, List.reverse_singleton]
  rw [hreverse, dropWhile_eq_cons_iff]
  constructor
  · rintro ⟨behind, hs, hbehind, hx⟩
    rw [List.reverse_eq_iff, List.reverse_append, List.reverse_singleton, List.singleton_append,
      dropWhile_eq_cons_iff] at hs
    obtain ⟨before, hs, hbefore, -⟩ := hs
    exact ⟨before, behind.reverse, hs, hbefore, fun c hc => hbehind c (List.mem_reverse.mp hc), hx⟩
  · rintro ⟨before, after, rfl, hbefore, hafter, hx⟩
    refine ⟨after.reverse, ?_, fun c hc => hafter c (List.mem_reverse.mp hc), hx⟩
    rw [dropWhile_eq_cons_iff.mpr ⟨before, rfl, hbefore, hx⟩, List.reverse_cons]

end Text

namespace Dim

variable {d : Dim} {x : Char}

theorem ofIndex?_eq_some_iff {n : Int} : ofIndex? n = some d ↔ n = d.index := by
  constructor
  · intro h
    rw [ofIndex?] at h
    split at h
    · cases h
    · next hn =>
      have hlt : n.toNat < all.length := (List.getElem?_eq_some_iff.mp h).1
      have hplace : n.toNat = d.index :=
        (List.getElem?_inj hlt nodup_all).mp (h.trans (getElem?_all_index d).symm)
      omega
  · rintro rfl
    exact ofIndex?_index d

/-- Whether a character is a dimension's letter in either case. The long s is a lower case of `S`. -/
def HasLetter (d : Dim) (x : Char) : Prop := x = d.letter ∨ x = d.letter.toLower ∨ d = s ∧ x = 'ſ'

theorem toUpper_eq_letter_iff : x.toUpper = d.letter ↔ x = d.letter ∨ x = d.letter.toLower := by
  have hupper : d.letter.toUpper = d.letter := by cases d <;> rfl
  constructor
  · intro h
    by_cases hx : x.isLower
    · have hlower : x.toLower = x := Char.toLower_eq_of_not_isUpper (Char.not_isUpper_of_isLower hx)
      refine .inr ?_
      rw [← h, Char.toLower_toUpper_eq_toLower, hlower]
    · exact .inl (by rw [← h, Char.toUpper_eq_of_not_isLower hx])
  · rintro (rfl | rfl)
    · exact hupper
    · rw [Char.toUpper_toLower_eq_toUpper, hupper]

theorem find?_letter_eq_some_iff : (all.find? fun d => d.letter = x) = some d ↔ d.letter = x := by
  constructor
  · intro h
    simpa using List.find?_some h
  · rintro rfl
    cases d <;> rfl

theorem ofLetter?_eq_some_iff : ofLetter? x = some d ↔ d.HasLetter x := by
  rw [ofLetter?, HasLetter]
  split
  · next hx =>
    have hletter : 'ſ' ≠ d.letter ∧ 'ſ' ≠ d.letter.toLower := by cases d <;> decide
    rw [hx, Option.some.injEq]
    simp [hletter, eq_comm]
  · next hx =>
    rw [find?_letter_eq_some_iff, eq_comm, toUpper_eq_letter_iff]
    simp [hx]

/-- Whether a text is a dimension's letter with blanks around it. -/
def Named (d : Dim) (text : String) : Prop :=
  ∃ before x after, text.toList = before ++ x :: after ∧ (∀ c ∈ before, Text.isBlank c) ∧
    (∀ c ∈ after, Text.isBlank c) ∧ d.HasLetter x

theorem HasLetter.isBlank_eq_false (h : d.HasLetter x) : Text.isBlank x = false := by
  rcases h with rfl | rfl | ⟨-, rfl⟩
  · cases d <;> rfl
  · cases d <;> rfl
  · rfl

theorem ofName?_eq_some_iff {text : String} : ofName? text = some d ↔ d.Named text := by
  have htrim : ofName? text = some d ↔ ∃ x, Text.trim text.toList = [x] ∧ ofLetter? x = some d := by
    rw [ofName?]
    split
    · next x hx => simp [hx]
    · next hne =>
      refine ⟨nofun, ?_⟩
      rintro ⟨x, hx, -⟩
      exact absurd hx (hne x)
  rw [htrim]
  simp only [Text.trim, Text.trimBy_eq_singleton_iff, ofLetter?_eq_some_iff]
  constructor
  · rintro ⟨x, ⟨before, after, htext, hbefore, hafter, -⟩, hx⟩
    exact ⟨before, x, after, htext, hbefore, hafter, hx⟩
  · rintro ⟨before, x, after, htext, hbefore, hafter, hx⟩
    exact ⟨x, ⟨before, after, htext, hbefore, hafter, hx.isBlank_eq_false⟩, hx⟩

end Dim

namespace Value

/-- Whether a value names a dimension: as itself, by the number of its place or by its letter. -/
def Spells : Value → Dim → Prop
  | dim d', d => d' = d
  | int n, d => n = d.index
  | text s, d => d.Named s
  | _, _ => False

/-- A value is read as a dimension exactly if it spells it. -/
theorem asDim_eq_ok_iff {v : Value} {d : Dim} : v.asDim = .ok d ↔ v.Spells d := by
  cases v with
  | dim d' => simp [asDim, Spells]
  | int n =>
    have hplace : (int n).asDim = .ok d ↔ Dim.ofIndex? n = some d := by
      rw [asDim]
      split <;> simp_all
    rw [hplace, Dim.ofIndex?_eq_some_iff, Spells]
  | text s =>
    have hname : (text s).asDim = .ok d ↔ Dim.ofName? s = some d := by
      rw [asDim]
      split <;> simp_all
    rw [hname, Dim.ofName?_eq_some_iff, Spells]
  | _ => simp [asDim, Spells]

end Value

end LoopTiling
