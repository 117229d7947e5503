import LoopTiling.Proofs.Lines
import LoopTiling.Proofs.MapSpace.Decoding

/-!
# A printed mapping loses nothing

The lines of a level tell its factors above one, its whole order and, at a spatial level, its split; the
first of them is the same in all mappings of a space. Read from the outermost level inwards, equal lines
therefore come from plans with the same factors, orders and splits, which have the same index.
-/
namespace LoopTiling

/-- A loop as it is printed. -/
def loopPart (d : Dim) (n : ℕ) : String := s!"{d.name}={(n : ℤ)}"

/-- The loop of a dimension, if it runs more than once. -/
def loopPart? (f : Dim → ℕ) (d : Dim) : Option String := if 1 < f d then some (loopPart d (f d)) else none

theorem Dim.letter_injective : Function.Injective Dim.letter := by
  intro d d' he
  exact Dim.name_injective (congrArg String.singleton he)

theorem isDigit_of_mem_natCast {n : ℕ} {c : Char} (hc : c ∈ (toString (n : ℤ)).toList) : c.isDigit := by
  rw [Text.toList_natCast] at hc
  exact Text.isDigit_toDigits hc

theorem natCast_toString_injective : Function.Injective fun n : ℕ => toString (n : ℤ) := by
  intro n n' he
  have hdigits := congrArg String.toList he
  simp only [Text.toList_natCast] at hdigits
  have hvalue := congrArg (Nat.ofDigitChars 10 · 0) hdigits
  simpa only [Nat.ofDigitChars_toDigits (b := 10) (by decide) (by decide)] using hvalue

theorem toList_loopPart (d : Dim) (n : ℕ) :
    (loopPart d n).toList = d.letter :: '=' :: (toString (n : ℤ)).toList := by
  have hname : (toString d.name).toList = [d.letter] := String.toList_singleton d.letter
  have hequals : (toString "=").toList = ['='] := String.toList_singleton '='
  rw [loopPart, String.toList_append, String.toList_append, hname, hequals]
  rfl

theorem loopPart_inj {d d' : Dim} {n n' : ℕ} : loopPart d n = loopPart d' n' ↔ d = d' ∧ n = n' := by
  constructor
  · intro he
    have hchars := congrArg String.toList he
    simp only [toList_loopPart, List.cons.injEq, true_and] at hchars
    exact ⟨Dim.letter_injective hchars.1,
      natCast_toString_injective (String.toList_inj.mp hchars.2)⟩
  · rintro ⟨rfl, rfl⟩
    rfl

theorem not_mem_loopPart {c : Char} (hletter : ∀ d ∈ Dim.all, c ≠ d.letter) (hequals : c ≠ '=')
    (hdigit : c.isDigit = false) (d : Dim) (n : ℕ) : c ∉ (loopPart d n).toList := by
  rw [toList_loopPart, List.mem_cons, List.mem_cons, not_or, not_or]
  refine ⟨hletter d (Dim.mem_all d), hequals, fun hc => ?_⟩
  rw [isDigit_of_mem_natCast hc] at hdigit
  cases hdigit

theorem exists_loopPart {f : Dim → ℕ} {ds : List Dim} {s : String}
    (hs : s ∈ ds.filterMap (loopPart? f)) : ∃ d n, s = loopPart d n := by
  obtain ⟨d, -, hd⟩ := List.mem_filterMap.mp hs
  rw [loopPart?] at hd
  split at hd
  · exact ⟨d, f d, (Option.some.inj hd).symm⟩
  · cases hd

/-- Printed loops have no line break, and can be told apart. -/
theorem newline_not_mem_loops (f : Dim → ℕ) (ds : List Dim) :
    '\n' ∉ (Text.listed (ds.filterMap (loopPart? f))).toList := by
  have hparts : ∀ s ∈ ds.filterMap (loopPart? f), '\n' ∉ s.toList := by
    intro s hs
    obtain ⟨d, n, rfl⟩ := exists_loopPart hs
    exact not_mem_loopPart (by decide) (by decide) (by decide) d n
  rw [Text.listed, Mapping.orDash]
  split
  · decide
  · exact Text.not_mem_intercalate (by decide) hparts

theorem listed_loops_inj {f f' : Dim → ℕ} {ds ds' : List Dim} :
    Text.listed (ds.filterMap (loopPart? f)) = Text.listed (ds'.filterMap (loopPart? f')) ↔
      ds.filterMap (loopPart? f) = ds'.filterMap (loopPart? f') := by
  have hparts {g : Dim → ℕ} {es : List Dim} : ∀ s ∈ es.filterMap (loopPart? g),
      ',' ∉ s.toList ∧ '=' ∈ s.toList := by
    intro s hs
    obtain ⟨d, n, rfl⟩ := exists_loopPart hs
    refine ⟨not_mem_loopPart (by decide) (by decide) (by decide) d n, ?_⟩
    rw [toList_loopPart]
    exact List.mem_cons_of_mem _ List.mem_cons_self
  exact Text.listed_inj hparts hparts

/-- The loops that are printed determine all factors: those that are not printed are one. -/
theorem eq_of_loopParts {f f' : Dim → ℕ} (hf : ∀ d, 0 < f d) (hf' : ∀ d, 0 < f' d) {ds ds' : List Dim}
    (hds : ∀ d, d ∈ ds) (hds' : ∀ d, d ∈ ds')
    (he : ds.filterMap (loopPart? f) = ds'.filterMap (loopPart? f')) : f = f' := by
  have hsame {g g' : Dim → ℕ} {es es' : List Dim} (hes : ∀ d, d ∈ es)
      (he : es.filterMap (loopPart? g) = es'.filterMap (loopPart? g')) {d : Dim} (hd : 1 < g d) :
      g' d = g d := by
    have hmem : loopPart d (g d) ∈ es'.filterMap (loopPart? g') :=
      he ▸ List.mem_filterMap.mpr ⟨d, hes d, if_pos hd⟩
    obtain ⟨d', -, hd'⟩ := List.mem_filterMap.mp hmem
    rw [loopPart?] at hd'
    split at hd'
    · obtain ⟨rfl, hn⟩ := loopPart_inj.mp (Option.some.inj hd')
      exact hn
    · cases hd'
  funext d
  by_cases hd : 1 < f d
  · exact (hsame hds he hd).symm
  · by_cases hd' : 1 < f' d
    · exact hsame hds' he.symm hd'
    · have := hf d
      have := hf' d
      omega

namespace Plan

/-- Whether two plans have the same factors, the same order and, at a spatial level, the same split at the
place of a level. -/
structure AgreeAt (p p' : Plan) (e : Level × ℕ) : Prop where
  factors : p.factorAt e.2 = p'.factorAt e.2
  order : p.order e.2 = p'.order e.2
  split : e.1.isSpatial → p.split e.2 = p'.split e.2

theorem Fits.toAssignment_eq_of_agreeAt {w : Workload} {h : Hierarchy} {p p' : Plan} (hp : p.Fits w h)
    (hp' : p'.Fits w h) (hagree : ∀ e ∈ h.levels.zipIdx, AgreeAt p p' e) :
    p.toAssignment h = p'.toAssignment h := by
  have hfactors : p.factors = p'.factors := by
    refine PerDim.ext_get fun d => ?_
    have hlength := (hp.factors d).length
    have hlength' := (hp'.factors d).length
    refine List.ext_getElem (hlength.trans hlength'.symm) fun k hk hk' => ?_
    have hlt : k < h.levelCount := hlength ▸ hk
    have hplace : h.levels[k]? = some h.levels[k] := List.getElem?_eq_getElem hlt
    have hget := congrFun (hagree (_, k) (List.mem_zipIdx_iff_getElem?.mpr hplace)).factors d
    rwa [factorAt, factorAt, List.getD_eq_getElem _ _ hk, List.getD_eq_getElem _ _ hk'] at hget
  have horders : (h.levels.zipIdx.map fun e => p.order e.2) = h.levels.zipIdx.map fun e => p'.order e.2 :=
    List.map_congr_left fun e he => (hagree e he).order
  have hsplits : (h.spatialLevels.map fun e => (Numeral.plain e.2, p.split e.2)) =
      h.spatialLevels.map fun e => (Numeral.plain e.2, p'.split e.2) := by
    refine List.map_congr_left fun e he => ?_
    obtain ⟨hmem, hs⟩ := List.mem_filter.mp he
    rw [(hagree e hmem).split hs]
  rw [toAssignment, toAssignment, hfactors, horders, hsplits]

end Plan

namespace Mapping

variable {w : Workload} {h : Hierarchy} {m m' : Mapping} {p p' : Plan} {e : Level × ℕ}

/-- The lines that a level begins with. -/
def levelHead (place name : String) (spatial : Bool) : String :=
  s!"  Level {place} [{name}] ({Level.kindText spatial}):"

def loopsLine (p : Plan) (k : ℕ) : String :=
  s!"    loops (outer->inner): {Text.listed ((p.order k).reverse.filterMap (loopPart? (p.factorAt k)))}"

def orderLine (p : Plan) (k : ℕ) : String :=
  s!"    order (inner->outer): {String.join ((p.order k).map Dim.name)}"

theorem toList_loopsLine (p : Plan) (k : ℕ) : (loopsLine p k).toList =
    "    loops (outer->inner): ".toList ++
      (Text.listed ((p.order k).reverse.filterMap (loopPart? (p.factorAt k)))).toList := by
  unfold loopsLine
  rw [String.toList_append]
  simp only [toString]

theorem toList_orderLine (p : Plan) (k : ℕ) : (orderLine p k).toList =
    "    order (inner->outer): ".toList ++ (p.order k).map Dim.letter := by
  have hletters (ds : List Dim) : (String.join (ds.map Dim.name)).toList = ds.map Dim.letter := by
    rw [String.toList_join, List.flatMap_map]
    simp only [Dim.name, String.toList_singleton, List.map_eq_flatMap]
  unfold orderLine
  rw [String.toList_append, ← hletters]
  simp only [toString]

/-- The lines of the loops and of the order tell the factors and the order of a level. -/
theorem factors_order_of_lines {k : ℕ} (hf : ∀ d, 0 < p.factorAt k d) (hf' : ∀ d, 0 < p'.factorAt k d)
    (ho : (p.order k).Perm Dim.all) (ho' : (p'.order k).Perm Dim.all) {u u' : List Char}
    (he : (loopsLine p k).toList ++ '\n' :: ((orderLine p k).toList ++ u) =
      (loopsLine p' k).toList ++ '\n' :: ((orderLine p' k).toList ++ u')) :
    p.factorAt k = p'.factorAt k ∧ p.order k = p'.order k ∧ u = u' := by
  rw [toList_loopsLine, toList_loopsLine, toList_orderLine, toList_orderLine] at he
  simp only [List.append_assoc, List.append_cancel_left_eq] at he
  rw [append_cons_inj_of_not_mem (newline_not_mem_loops _ _) (newline_not_mem_loops _ _),
    String.toList_inj, listed_loops_inj] at he
  obtain ⟨hloops, hrest⟩ := he
  have hall {o : List Dim} (ho : o.Perm Dim.all) (d : Dim) : d ∈ o.reverse :=
    List.mem_reverse.mpr (ho.mem_iff.mpr (Dim.mem_all d))
  have hlength : ((p.order k).map Dim.letter).length = ((p'.order k).map Dim.letter).length := by
    rw [List.length_map, List.length_map, ho.length_eq, ho'.length_eq]
  obtain ⟨horder, hu⟩ := List.append_inj (List.append_cancel_left hrest) hlength
  exact ⟨eq_of_loopParts hf hf' (hall ho) (hall ho') hloops,
    List.map_injective_iff.mpr Dim.letter_injective horder, hu⟩

variable [Text.DigitLimit]

theorem eq_of_text?_int {n : ℤ} {s : String} (hs : (Value.int n).text? = some s) : s = toString n := by
  have hdecimal : (Value.int n).text? = Text.decimal? n := rfl
  rw [hdecimal, Text.decimal?] at hs
  split at hs
  · exact (Option.some.inj hs).symm
  · cases hs

theorem loopTexts_eq {k : ℕ} {ds : List Dim} {texts : List String}
    (ht : loopTexts (MapSpace.factorsOfLevel p.factors k) (names ds) = .ok texts) :
    texts = ds.reverse.filterMap (loopPart? (p.factorAt k)) := by
  have hloop {d : Dim} {text? : Option String}
      (hd : loopText? (MapSpace.factorsOfLevel p.factors k) (.text d.name) = .ok text?) :
      text? = loopPart? (p.factorAt k) d := by
    have hfactor : getD (MapSpace.factorsOfLevel p.factors k) (.text d.name) (.int 1) =
        .ok (.int (p.factorAt k d)) := getD_name (fun d => .int ((p.factors.get d).getD k 1)) d _
    have hless : (Value.int 1).less (.int (p.factorAt k d)) =
        .ok (decide (1 < (p.factorAt k d : ℤ))) := Value.less_int 1 _
    rw [loopText?, hfactor, ok_bind, hless, ok_bind] at hd
    rw [loopPart?]
    by_cases hlt : 1 < p.factorAt k d
    · rw [if_pos (decide_eq_true (by exact_mod_cast hlt))] at hd
      simp only [bind_eq_ok, shown_eq_ok, pure_eq_ok] at hd
      obtain ⟨_, ⟨⟩, extent, hextent, rfl⟩ := hd
      rw [if_pos hlt, loopPart, eq_of_text?_int hextent]
      rfl
    · rw [if_neg (by simpa using hlt), pure_eq_ok] at hd
      rw [if_neg hlt, hd]
  simp only [loopTexts, bind_eq_ok, mapM_eq_ok, pure_eq_ok] at ht
  obtain ⟨texts?, hall, rfl⟩ := ht
  rw [names, ← List.map_reverse, List.forall₂_map_left_iff] at hall
  generalize ds.reverse = ds' at hall ⊢
  induction hall with
  | nil => rfl
  | @cons d text? ds texts? hd _ ih =>
    rw [List.filterMap_cons, List.filterMap_cons, hloop hd, ih]
    rfl

/-- The line of the split, if a level is spatial. -/
def splitLines (m : Mapping) (e : Level × ℕ) : Except Fault (List String) :=
  if e.1.isSpatial then (fun line => [line]) <$> m.splitLine (.int e.2) else .ok []

theorem Follows.levelLines_eq_ok (hm : m.Follows h p) (hnames : m.levelNames = .list h.names)
    (he : e ∈ h.levels.zipIdx) {lines : List String}
    (hl : m.levelLines (.int e.2) (MapSpace.factorsOfLevel p.factors e.2) = .ok lines) :
    ∃ place name last, (Value.int e.2).text? = some place ∧ e.1.name.text? = some name ∧
      m.splitLines e = .ok last ∧ lines = levelHead place name e.1.isSpatial ::
        loopsLine p e.2 :: orderLine p e.2 :: last := by
  have hhas : m.splits.has (.int e.2) = .ok e.1.isSpatial := by
    cases hs : e.1.isSpatial with
    | true => exact (hm.has_splits (List.mem_filter.mpr ⟨he, hs⟩)).1
    | false => exact hm.has_splits_eq_false he hs
  rw [levelLines, levelName_eq hnames he, ok_bind, hhas, ok_bind] at hl
  simp only [hm.loopOrder he, joined_names, ok_bind, bind_eq_ok, shown_eq_ok] at hl
  obtain ⟨place, hplace, name, hname, texts, htexts, hl⟩ := hl
  obtain rfl := loopTexts_eq htexts
  rw [splitLines]
  split at hl
  · simp only [bind_eq_ok, pure_eq_ok] at hl
    obtain ⟨line, hline, rfl⟩ := hl
    exact ⟨place, name, [line], hplace, hname, by rw [if_pos ‹_›, hline]; rfl, rfl⟩
  · rw [pure_eq_ok] at hl
    exact ⟨place, name, [], hplace, hname, if_neg ‹_›, hl.symm⟩

/-- A split that is not given is told by its text, up to the blank behind it. -/
theorem split_eq_of_texts (hp : p.Fits w h) (hp' : p'.Fits w h) (he : e ∈ h.spatialLevels)
    {text text' : String} (ht : (p.split e.2).toValue.text? = some text)
    (ht' : (p'.split e.2).toValue.text? = some text') {u u' : List Char}
    (heq : text.toList ++ ' ' :: u = text'.toList ++ ' ' :: u') : p.split e.2 = p'.split e.2 := by
  have hfits := hp.split e he
  have hfits' := hp'.split e he
  rw [MapSpace.SplitFits] at hfits hfits'
  cases hgiven : e.1.split with
  | some given =>
    rw [hgiven] at hfits hfits'
    exact hfits.trans hfits'.symm
  | none =>
    rw [hgiven] at hfits hfits'
    obtain ⟨n, hn, hle, -⟩ := hfits
    obtain ⟨n', hn', hle', -⟩ := hfits'
    obtain ⟨k, rfl⟩ := Int.eq_ofNat_of_zero_le ((Int.natCast_nonneg _).trans hle)
    obtain ⟨k', rfl⟩ := Int.eq_ofNat_of_zero_le ((Int.natCast_nonneg _).trans hle')
    rw [hn] at ht
    rw [hn'] at ht'
    obtain rfl := eq_of_text?_int ht
    obtain rfl := eq_of_text?_int ht'
    have hblank (k : ℕ) : ' ' ∉ (toString (k : ℤ)).toList := fun hmem =>
      absurd (isDigit_of_mem_natCast hmem) (by decide)
    rw [append_cons_inj_of_not_mem (hblank k) (hblank k'), String.toList_inj] at heq
    rw [hn, hn', natCast_toString_injective heq.1]

theorem Follows.splitLine_eq_ok (hm : m.Follows h p) (he : e ∈ h.spatialLevels)
    (hs : 0 ≤ (p.split e.2).toInt) {line : String} (hl : m.splitLine (.int e.2) = .ok line) :
    ∃ text rest, (p.split e.2).toValue.text? = some text ∧
      line.toList = "    split=".toList ++ (text.toList ++ ' ' :: rest) := by
  rw [splitLine, hm.spatialPartition he hs, ok_bind] at hl
  simp only [hm.fanout he hs, (hm.has_splits he).2, joined_names, ok_bind, bind_eq_ok, shown_eq_ok,
    pure_eq_ok] at hl
  obtain ⟨text, htext, countX, -, countY, -, rfl⟩ := hl
  have hx : " X=".toList = ' ' :: ['X', '='] := rfl
  simp only [String.toList_append, List.append_assoc, toString, hx, List.cons_append]
  exact ⟨text, _, htext, rfl⟩

theorem Follows.splitLines_congr (hm : m.Follows h p) (hm' : m'.Follows h p')
    (hs : ∀ e ∈ h.spatialLevels, 0 ≤ (p.split e.2).toInt) (he : e ∈ h.levels.zipIdx)
    (hagree : p.AgreeAt p' e) : m.splitLines e = m'.splitLines e := by
  rw [splitLines, splitLines]
  split
  · next hspatial =>
    have hmem : e ∈ h.spatialLevels := List.mem_filter.mpr ⟨he, hspatial⟩
    have hsplit := hagree.split hspatial
    rw [splitLine, splitLine, hm.spatialPartition hmem (hs e hmem), hm.fanout hmem (hs e hmem),
      (hm.has_splits hmem).2, hm'.spatialPartition hmem (hsplit ▸ hs e hmem),
      hm'.fanout hmem (hsplit ▸ hs e hmem), (hm'.has_splits hmem).2]
    simp only [Plan.cut, Plan.instances, hagree.factors, hagree.order, hsplit]
  · rfl

/-- The lines of a level tell what a plan says about it, and where they end. -/
theorem Follows.agreeAt_of_levelLines (hm : m.Follows h p) (hm' : m'.Follows h p')
    (hnames : m.levelNames = .list h.names) (hnames' : m'.levelNames = .list h.names)
    (hp : p.Fits w h) (hp' : p'.Fits w h) (hrange : ∀ l ∈ h.levels, MapSpace.SplitInRange l)
    (he : e ∈ h.levels.zipIdx) {lines lines' : List String}
    (hl : m.levelLines (.int e.2) (MapSpace.factorsOfLevel p.factors e.2) = .ok lines)
    (hl' : m'.levelLines (.int e.2) (MapSpace.factorsOfLevel p'.factors e.2) = .ok lines')
    {rest rest' : List Char} (heq : Text.broken lines ++ rest = Text.broken lines' ++ rest') :
    p.AgreeAt p' e ∧ rest = rest' := by
  have hs : ∀ e ∈ h.spatialLevels, 0 ≤ (p.split e.2).toInt := fun e he => (hp.split_range hrange he).1
  have hs' : ∀ e ∈ h.spatialLevels, 0 ≤ (p'.split e.2).toInt := fun e he => (hp'.split_range hrange he).1
  obtain ⟨place, name, last, hplace, hname, hlast, rfl⟩ := hm.levelLines_eq_ok hnames he hl
  obtain ⟨place', name', last', hplace', hname', hlast', rfl⟩ := hm'.levelLines_eq_ok hnames' he hl'
  obtain rfl := Option.some.inj (hplace.symm.trans hplace')
  obtain rfl := Option.some.inj (hname.symm.trans hname')
  simp only [Text.broken, List.flatMap_cons, List.append_assoc, List.cons_append, List.cons.injEq,
    true_and, List.append_cancel_left_eq] at heq
  obtain ⟨hfactors, horder, heq⟩ := factors_order_of_lines (fun d => hp.factorAt_pos e.2 d)
    (fun d => hp'.factorAt_pos e.2 d) (hp.order e he).1 (hp'.order e he).1 heq
  have hagree : p.AgreeAt p' e := by
    refine ⟨hfactors, horder, fun hspatial => ?_⟩
    have hmem : e ∈ h.spatialLevels := List.mem_filter.mpr ⟨he, hspatial⟩
    rw [splitLines, if_pos hspatial, map_eq_ok] at hlast hlast'
    obtain ⟨line, hline, rfl⟩ := hlast
    obtain ⟨line', hline', rfl⟩ := hlast'
    obtain ⟨text, u, htext, hchars⟩ := hm.splitLine_eq_ok hmem (hs e hmem) hline
    obtain ⟨text', u', htext', hchars'⟩ := hm'.splitLine_eq_ok hmem (hs' e hmem) hline'
    simp only [List.flatMap_cons, List.flatMap_nil, hchars, hchars', List.append_assoc,
      List.cons_append, List.cons.injEq, true_and, List.append_cancel_left_eq] at heq
    exact split_eq_of_texts hp hp' hmem htext htext' heq
  rw [hm.splitLines_congr hm' hs he hagree, hlast', Except.ok.injEq] at hlast
  exact ⟨hagree, List.append_cancel_left (hlast ▸ heq)⟩

/-- Levels whose lines are together the same agree one by one. -/
theorem Follows.agreeAt_of_blocks (hm : m.Follows h p) (hm' : m'.Follows h p')
    (hnames : m.levelNames = .list h.names) (hnames' : m'.levelNames = .list h.names)
    (hp : p.Fits w h) (hp' : p'.Fits w h) (hrange : ∀ l ∈ h.levels, MapSpace.SplitInRange l)
    {es : List (Level × ℕ)} (hes : ∀ e ∈ es, e ∈ h.levels.zipIdx) {blocks blocks' : List (List String)}
    (hb : List.Forall₂ (fun e lines =>
      m.levelLines (.int e.2) (MapSpace.factorsOfLevel p.factors e.2) = .ok lines) es blocks)
    (hb' : List.Forall₂ (fun e lines =>
      m'.levelLines (.int e.2) (MapSpace.factorsOfLevel p'.factors e.2) = .ok lines) es blocks')
    (heq : Text.broken blocks.flatten = Text.broken blocks'.flatten) : ∀ e ∈ es, p.AgreeAt p' e := by
  induction hb generalizing blocks' with
  | nil => exact List.forall_mem_nil _
  | @cons e lines es blocks hl _ ih =>
    obtain ⟨lines', blocks', hl', hbs', rfl⟩ := List.forall₂_cons_left_iff.mp hb'
    rw [List.forall_mem_cons] at hes ⊢
    rw [List.flatten_cons, List.flatten_cons, Text.broken_append, Text.broken_append] at heq
    obtain ⟨hagree, hrest⟩ :=
      hm.agreeAt_of_levelLines hm' hnames hnames' hp hp' hrange hes.1 hl hl' heq
    exact ⟨hagree, ih hes.2 hbs' hrest⟩

theorem Follows.bodyLines_eq_ok (hm : m.Follows h p) {lines : List String}
    (hl : m.bodyLines = .ok lines) : ∃ blocks, List.Forall₂ (fun e lines =>
        m.levelLines (.int e.2) (MapSpace.factorsOfLevel p.factors e.2) = .ok lines)
          h.levels.zipIdx.reverse blocks ∧
      lines = String.ofList (List.replicate 50 '=') :: blocks.flatten := by
  have htable : m.loopBounds = .map ((List.range h.levelCount).map fun (level : ℕ) =>
      (.int level, MapSpace.factorsOfLevel p.factors level)) := congrArg Prod.fst hm
  have hplaces : List.range h.levelCount = h.levels.zipIdx.map Prod.snd := by
    rw [List.zipIdx_map_snd, List.range_eq_range']
    rfl
  rw [bodyLines, htable, Value.entries, ok_bind, Value.sortedDown_places, ok_bind] at hl
  simp only [bind_eq_ok, mapM_eq_ok, pure_eq_ok] at hl
  obtain ⟨blocks, hblocks, rfl⟩ := hl
  rw [hplaces, List.map_map, ← List.map_reverse, List.forall₂_map_left_iff] at hblocks
  exact ⟨blocks, hblocks, rfl⟩

/-- The text of a mapping: the id stands in the first line only, in front of what it shares with others. -/
theorem Follows.pretty_eq_ok (hm : m.Follows h p) {i : ℕ} (hid : m.mappingId = .int i) {text : String}
    (ht : m.pretty = .ok text) : ∃ name start blocks, m.workloadName.text? = some name ∧
      '\n' ∉ start ∧ List.Forall₂ (fun e lines =>
        m.levelLines (.int e.2) (MapSpace.factorsOfLevel p.factors e.2) = .ok lines)
          h.levels.zipIdx.reverse blocks ∧
      text.toList = start ++ (name.toList ++ '\n' ::
        (List.replicate 50 '=' ++ Text.broken blocks.flatten)) := by
  simp only [pretty, headLine, bind_eq_ok, shown_eq_ok, pure_eq_ok] at ht
  obtain ⟨head, ⟨id, hshown, name, hname, rfl⟩, lines, hlines, rfl⟩ := ht
  obtain ⟨blocks, hblocks, rfl⟩ := hm.bodyLines_eq_ok hlines
  rw [hid] at hshown
  obtain rfl := eq_of_text?_int hshown
  refine ⟨name, "Mapping #".toList ++ ((toString (i : ℤ)).toList ++ ": ".toList), blocks, hname, ?_,
    hblocks, ?_⟩
  · have hdigits : '\n' ∉ (toString (i : ℤ)).toList := fun hmem =>
      absurd (isDigit_of_mem_natCast hmem) (by decide)
    rw [List.mem_append, List.mem_append, not_or, not_or]
    exact ⟨by decide, hdigits, by decide⟩
  · rw [Text.toList_lines, Text.broken, List.flatMap_cons, String.toList_ofList]
    simp only [String.toList_append, List.append_assoc, List.cons_append, toString, Text.broken]

end Mapping

namespace MapSpace

section Built

variable [Text.DigitLimit] {w : Workload} {h : Hierarchy} {m : MapSpace}

/-- Indices whose mappings are printed with the same lines behind the first one are the same. -/
theorem eq_of_linesAfterFirst_eq (hm : build w h = .ok m) {i j : ℕ} (hi : i < m.size) (hj : j < m.size)
    {mi mj : Mapping} (hmi : m.decode (.int i) = .ok mi) (hmj : m.decode (.int j) = .ok mj)
    {ti tj : String} (hti : mi.pretty = .ok ti) (htj : mj.pretty = .ok tj)
    (he : Text.linesAfterFirst ti = Text.linesAfterFirst tj) : i = j := by
  obtain ⟨ha, rfl, -⟩ := build_eq_ok.mp hm
  have hmembers := bijOn_assignmentOf ha
  obtain ⟨p, hp, hplan⟩ := Plan.exists_eq_toAssignment (hmembers.mapsTo hi)
  obtain ⟨p', hp', hplan'⟩ := Plan.exists_eq_toAssignment (hmembers.mapsTo hj)
  rw [decode_layout ha hi, hplan, Except.ok.injEq] at hmi
  rw [decode_layout ha hj, hplan', Except.ok.injEq] at hmj
  subst hmi hmj
  have hfollows : ((layout w h).mappingOf i (p.toAssignment h)).Follows h p := rfl
  have hfollows' : ((layout w h).mappingOf j (p'.toAssignment h)).Follows h p' := rfl
  obtain ⟨name, start, blocks, hname, hstart, hblocks, hchars⟩ := hfollows.pretty_eq_ok rfl hti
  obtain ⟨name', start', blocks', hname', hstart', hblocks', hchars'⟩ := hfollows'.pretty_eq_ok rfl htj
  obtain rfl := Option.some.inj (hname.symm.trans hname')
  have hbroken := List.append_cancel_left
    (Text.eq_of_linesAfterFirst_eq hstart hstart' hchars hchars' he)
  have hagree := hfollows.agreeAt_of_blocks hfollows' rfl rfl hp hp' ha.split_range
    (fun e he => List.mem_reverse.mp he) hblocks hblocks' hbroken
  have hsame := hp.toAssignment_eq_of_agreeAt hp' fun e he => hagree e (List.mem_reverse.mpr he)
  exact hmembers.injOn hi hj (hplan.trans (hsame.trans hplan'.symm))

/-- The printed mapping is lossless: every index in range is decoded to a mapping that nothing but a limit
on the digits of a number keeps from being printed, and indices whose texts have the same lines behind the
first one are the same. -/
theorem pretty_lossless (hm : build w h = .ok m) {i j : ℕ} (hi : i < m.size) (hj : j < m.size) :
    ∃ mi mj, m.decode (.int i) = .ok mi ∧ m.decode (.int j) = .ok mj ∧
      FailsOnly Fault.OfLimit mi.pretty ∧ FailsOnly Fault.OfLimit mj.pretty ∧
      ∀ ti tj, mi.pretty = .ok ti → mj.pretty = .ok tj →
        Text.linesAfterFirst ti = Text.linesAfterFirst tj → i = j := by
  obtain ⟨mi, _, hmi, -, -, hprettyi⟩ := exists_decode hm hi
  obtain ⟨mj, _, hmj, -, -, hprettyj⟩ := exists_decode hm hj
  exact ⟨mi, mj, hmi, hmj, failsOnly_pretty hm hmi hprettyi, failsOnly_pretty hm hmj hprettyj,
    fun ti tj hti htj he => eq_of_linesAfterFirst_eq hm hi hj hmi hmj hti htj he⟩

end Built

theorem pretty_lossless_sample : ∃ m mi mj ti tj,
    build sampleWorkload (sampleHierarchy true none) = .ok m ∧ m.size = 31104 ∧
    m.decode (.int 20000) = .ok mi ∧ m.decode (.int 20001) = .ok mj ∧
    mi.pretty = .ok ti ∧ mj.pretty = .ok tj ∧ Text.linesAfterFirst ti ≠ Text.linesAfterFirst tj := by
  obtain ⟨m, hm, hsize⟩ := exists_build (w := sampleWorkload) (h := sampleHierarchy true none)
    (n := 31104) (by decide +kernel)
  obtain ⟨mi, mj, hmi, hmj, -, -, hlossless⟩ :=
    pretty_lossless hm (i := 20000) (j := 20001) (by omega) (by omega)
  have hshown {n : ℕ} (hn : n < m.size) {mapping : Mapping} (hdecode : m.decode (.int n) = .ok mapping) :
      ∃ text, mapping.pretty = .ok text := by
    obtain ⟨_, _, hdecode', -, -, hpretty⟩ := exists_decode hm hn
    obtain rfl := Except.ok.inj (hdecode.symm.trans hdecode')
    exact hpretty.exists_ok_of_shows (legible_of_decode hm (by decide +kernel) (by decide +kernel)
      (by decide +kernel) (by decide +kernel) hdecode)
  obtain ⟨ti, hti⟩ := hshown (n := 20000) (by omega) hmi
  obtain ⟨tj, htj⟩ := hshown (n := 20001) (by omega) hmj
  exact ⟨m, mi, mj, ti, tj, hm, hsize, hmi, hmj, hti, htj,
    fun he => absurd (hlossless ti tj hti htj he) (by decide)⟩

end MapSpace

end LoopTiling
