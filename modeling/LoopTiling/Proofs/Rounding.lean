import LoopTiling.Proofs.Layers

/-!
# Layers that can be used

What a registry has read gives every layer one positive bound for each dimension, and a workload with
these bounds. What extents are rounded up to is not looked at when it is read: it can be below the extent,
and not even positive. So a layer can be used with its bounds rounded up exactly if what they are rounded
to is positive and can be reported, and no bound is made smaller exactly if nothing is rounded down.
-/
namespace LoopTiling

namespace Registry

variable {g : Registry}

theorem round_pos_iff {b : Numeral} (hb : 0 < b.toInt) : 0 < (g.round b).toInt ↔
    ∀ c, g.composites.lookup b.toInt = some c → 0 < c := by
  rw [round]
  cases g.composites.lookup b.toInt with
  | none => simp [hb]
  | some c => simp

theorem le_round_iff {b : Numeral} : b.toInt ≤ (g.round b).toInt ↔
    ∀ c, g.composites.lookup b.toInt = some c → b.toInt ≤ c := by
  rw [round]
  cases g.composites.lookup b.toInt with
  | none => simp
  | some c => simp

variable [Text.DigitLimit] {config : Value} {name : String} {given : List (Dim × Numeral)}
  {n : Dim → Numeral}

/-- Whether the rounding of a bound, if it is rounded, can be reported. -/
def RoundingShown (g : Registry) (b : Numeral) : Prop :=
  ∀ c, g.composites.lookup b.toInt = some c → b.text?.isSome ∧ Text.isShort c

/-- Whether a layer can be looked up with given bounds, all positive, and gives a workload that has
them. -/
structure Usable (g : Registry) (name : String) (pad : Bool) (n : Dim → Numeral) : Prop where
  pos : ∀ d, 0 < (n d).toInt
  lookup : ∃ bounds, g.lookup (.text name) (.flag pad) = .ok bounds ∧ ∀ d, bounds.lookup d = some (n d)
  workload : ∃ w, Workload.ofLayer g (.text name) (.flag pad) = .ok w ∧
    ∀ d, (w.bounds.get d : ℤ) = (n d).toInt

theorem exists_rounding?_iff (name : String) {e : Dim × Numeral} :
    (∀ x, g.rounding? (.text name) e = some x → ∃ r, x = .ok r) ↔ g.RoundingShown e.2 := by
  simp only [rounding?, Option.map_eq_some_iff, RoundingShown]
  constructor
  · intro h c hc
    obtain ⟨r, hr⟩ := h _ ⟨c, hc, rfl⟩
    simp only [bind_eq_ok, shown_eq_ok] at hr
    obtain ⟨_, -, before, hbefore, after, hafter, -⟩ := hr
    exact ⟨Option.isSome_of_mem hbefore, (Text.isSome_decimal?_iff c).mp (Option.isSome_of_mem hafter)⟩
  · rintro h x ⟨c, hc, rfl⟩
    obtain ⟨hb, hshort⟩ := h c hc
    obtain ⟨before, hbefore⟩ := Option.isSome_iff_exists.mp hb
    obtain ⟨after, hafter⟩ := Option.isSome_iff_exists.mp ((Text.isSome_decimal?_iff c).mpr hshort)
    simp only [hbefore, hafter, bind_eq_ok, shown_eq_ok]
    exact ⟨_, name, rfl, before, rfl, after, rfl, rfl⟩

/-- A layer is looked up with its bounds rounded up exactly if every rounding can be reported. -/
theorem lookup_padded_eq_ok {bounds : List (Dim × Numeral)} (hgiven : g.layers.lookup name = some given) :
    g.lookup (.text name) (.flag true) = .ok bounds ↔
      (∀ e ∈ given, g.RoundingShown e.2) ∧ bounds = given.map fun e => (e.1, g.round e.2) := by
  have hbounds : g.bounds (.text name) = .ok given := by
    rw [Registry.bounds, find?_text, hgiven]
    rfl
  have hreports : (∃ rs, (g.roundingsOf (.text name) (.flag true) given).mapM id = .ok rs) ↔
      ∀ e ∈ given, g.RoundingShown e.2 := by
    have hlist : g.roundingsOf (.text name) (.flag true) given =
        given.filterMap (g.rounding? (.text name)) := if_pos rfl
    rw [hlist, exists_mapM_eq_ok]
    simp only [← exists_rounding?_iff name, List.mem_filterMap, id]
    constructor
    · exact fun h e he x hx => h x ⟨e, he, hx⟩
    · rintro h x ⟨e, he, hx⟩
      exact h e he x hx
  rw [← hreports, Registry.lookup, hbounds, ok_bind]
  simp only [bind_eq_ok, pure_eq_ok]
  constructor
  · rintro ⟨rs, hrs, rfl⟩
    exact ⟨⟨rs, hrs⟩, rfl⟩
  · rintro ⟨⟨rs, hrs⟩, rfl⟩
    exact ⟨rs, hrs, rfl⟩

/-- A layer that is looked up can be used exactly if its bounds are positive. -/
theorem usable_of_lookup {pad : Bool} {bounds : List (Dim × Numeral)}
    (hlookup : g.lookup (.text name) (.flag pad) = .ok bounds)
    (hn : ∀ d, bounds.lookup d = some (n d)) : g.Usable name pad n ↔ ∀ d, 0 < (n d).toInt := by
  refine ⟨Usable.pos, fun hpos => ⟨hpos, ⟨bounds, hlookup, hn⟩, ?_⟩⟩
  rw [Workload.ofLayer_eq_ofNamed]
  exact (Workload.ofNamed_of_lookup hlookup hn).mpr hpos

/-- A layer has one set of bounds to be used with. -/
theorem Usable.unique {pad : Bool} {n' : Dim → Numeral} (h : g.Usable name pad n)
    (h' : g.Usable name pad n') : n' = n := by
  obtain ⟨bounds, hlookup, hn⟩ := h.lookup
  obtain ⟨bounds', hlookup', hn'⟩ := h'.lookup
  obtain rfl := Except.ok.inj (hlookup.symm.trans hlookup')
  exact funext fun d => Option.some.inj ((hn' d).symm.trans (hn d))

theorem RoundingShown.of_isShort {b : Numeral} (hb : 0 < b.toInt)
    (h : ∀ c, g.composites.lookup b.toInt = some c → b.toInt ≤ c ∧ Text.isShort c) :
    g.RoundingShown b := by
  intro c hc
  obtain ⟨hle, hshort⟩ := h c hc
  refine ⟨Numeral.isSome_text?_of_isShort ?_, hshort⟩
  rw [← Int.toNat_of_nonneg hb.le]
  rw [← Int.toNat_of_nonneg (hb.le.trans hle)] at hshort
  exact Text.isShort_mono (by omega) hshort

theorem forall_roundingShown_iff (hnodup : (given.map Prod.fst).Nodup)
    (hn : ∀ d, given.lookup d = some (n d)) :
    (∀ e ∈ given, g.RoundingShown e.2) ↔ ∀ d, g.RoundingShown (n d) := by
  constructor
  · exact fun h d => h (d, n d) ((lookup_eq_some_iff_mem hnodup).mp (hn d))
  · rintro h ⟨d, b⟩ he
    rw [← lookup_eq_some_iff_mem hnodup, hn d, Option.some.injEq] at he
    exact he ▸ h d

/-- A layer with positive bounds can be used rounded up exactly if every rounding can be reported and
everything that a bound is rounded to is positive. -/
theorem usable_padded_iff {n' : Dim → Numeral} (hgiven : g.layers.lookup name = some given)
    (hnodup : (given.map Prod.fst).Nodup) (hn : ∀ d, given.lookup d = some (n d))
    (hpos : ∀ d, 0 < (n d).toInt) :
    g.Usable name true n' ↔ (∀ d, g.RoundingShown (n d)) ∧ (∀ d, n' d = g.round (n d)) ∧
      ∀ d c, g.composites.lookup (n d).toInt = some c → 0 < c := by
  have hround (d : Dim) :
      (given.map fun e => (e.1, g.round e.2)).lookup d = some (g.round (n d)) := by
    rw [lookup_map_snd, hn d, Option.map_some]
  rw [← forall_roundingShown_iff hnodup hn]
  constructor
  · intro hu
    obtain ⟨bounds, hlookup, hn'⟩ := hu.lookup
    obtain ⟨hs, rfl⟩ := (lookup_padded_eq_ok hgiven).mp hlookup
    have hrounded (d : Dim) : n' d = g.round (n d) :=
      Option.some.inj ((hn' d).symm.trans (hround d))
    exact ⟨hs, hrounded, fun d => (round_pos_iff (hpos d)).mp (hrounded d ▸ hu.pos d)⟩
  · rintro ⟨hs, hn', hc⟩
    obtain rfl : n' = fun d => g.round (n d) := funext hn'
    exact (usable_of_lookup ((lookup_padded_eq_ok hgiven).mpr ⟨hs, rfl⟩) hround).mpr
      fun d => (round_pos_iff (hpos d)).mpr (hc d)

/-- Every layer of a registry that is read can be used with its own bounds. Rounded up on request it is
looked up exactly if every rounding can be reported, and can be used exactly if moreover everything that a
bound is rounded to is positive; it can be used and no bound is smaller, exactly if no bound is rounded
down and everything that one is rounded to can be reported. -/
theorem layer_usable (hg : ofConfig config = .ok g) (hname : name ∈ g.names) :
    ∃ n, g.Usable name false n ∧
      ((∃ bounds, g.lookup (.text name) (.flag true) = .ok bounds) ↔ ∀ d, g.RoundingShown (n d)) ∧
      (∀ n', g.Usable name true n' ↔ (∀ d, g.RoundingShown (n d)) ∧ (∀ d, n' d = g.round (n d)) ∧
        ∀ d c, g.composites.lookup (n d).toInt = some c → 0 < c) ∧
      ((∃ n', g.Usable name true n' ∧ ∀ d, (n d).toInt ≤ (n' d).toInt) ↔
        ∀ d c, g.composites.lookup (n d).toInt = some c → (n d).toInt ≤ c ∧ Text.isShort c) := by
  obtain ⟨given, hgiven⟩ := exists_lookup_of_mem_names hname
  obtain ⟨dims, hdims⟩ := exists_readBounds hg _ (mem_of_lookup hgiven)
  have hnodup := nodup_of_readBounds hdims
  choose n hn hpos using complete_of_readBounds hdims
  have husable (n' : Dim → Numeral) : g.Usable name true n' ↔ _ :=
    usable_padded_iff hgiven hnodup hn hpos
  refine ⟨n, (usable_of_lookup (lookup_not_padded hgiven) hn).mpr hpos, ?_, husable, ?_⟩
  · simp only [lookup_padded_eq_ok hgiven, exists_and_left, exists_eq, and_true,
      forall_roundingShown_iff hnodup hn]
  · constructor
    · rintro ⟨n', hu, hle⟩ d c hc
      obtain ⟨hs, hn', -⟩ := (husable n').mp hu
      exact ⟨le_round_iff.mp (hn' d ▸ hle d) c hc, (hs d c hc).2⟩
    · intro h
      have hs (d : Dim) : g.RoundingShown (n d) := .of_isShort (hpos d) (h d)
      have hc (d : Dim) (c : ℤ) (hd : g.composites.lookup (n d).toInt = some c) : 0 < c :=
        (hpos d).trans_le (h d c hd).1
      exact ⟨_, (husable _).mpr ⟨hs, fun _ => rfl, hc⟩,
        fun d => le_round_iff.mpr fun c hd => (h d c hd).1⟩

end Registry

namespace Registry

def tinyBounds (extent : ℤ) : List (Dim × Numeral) :=
  Dim.all.map fun d => (d, .plain (if d = .r then extent else 1))

/-- A table with one layer, and what its extent three is rounded up to. -/
def tinyConfig (composite : ℤ) : Value :=
  .map [(.text "layers", .map [(.text "tiny", boundMap (tinyBounds 3))]),
    (.text "nearest_composite", .map [(.int 3, .int composite)])]

def tiny (composite : ℤ) : Registry := ⟨[("tiny", tinyBounds 3)], [(3, composite)]⟩

theorem ofConfig_tinyConfig (composite : ℤ) : ofConfig (tinyConfig composite) = .ok (tiny composite) := by
  rfl

theorem lookup_tinyBounds (extent : ℤ) (d : Dim) :
    (tinyBounds extent).lookup d = some (.plain (if d = .r then extent else 1)) := by
  cases d <;> rfl

theorem layer_usable_tiny : ∃ n n', ofConfig (tinyConfig 4) = .ok (tiny 4) ∧ "tiny" ∈ (tiny 4).names ∧
    (tiny 4).Usable "tiny" false n ∧ (tiny 4).Usable "tiny" true n' ∧
      n .r = .plain 3 ∧ n' .r = .plain 4 ∧ ∀ d, (n d).toInt ≤ (n' d).toInt := by
  have hname : "tiny" ∈ (tiny 4).names := List.mem_cons_self
  obtain ⟨n, hu, -, husable, hpadded⟩ := layer_usable (ofConfig_tinyConfig 4) hname
  obtain ⟨bounds, hlookup, hbounds⟩ := hu.lookup
  obtain rfl : tinyBounds 3 = bounds := Except.ok.inj ((lookup_not_padded rfl).symm.trans hlookup)
  have hn (d : Dim) : n d = .plain (if d = .r then 3 else 1) :=
    Option.some.inj ((hbounds d).symm.trans (lookup_tinyBounds 3 d))
  obtain ⟨n', hu', hle⟩ := hpadded.mpr fun d c hc => by
    rw [hn d] at hc ⊢
    cases d with
    | r =>
      obtain rfl : 4 = c := Option.some.inj hc
      exact ⟨by decide, by decide +kernel⟩
    | _ => cases hc
  obtain ⟨-, hn', -⟩ := (husable n').mp hu'
  exact ⟨n, n', ofConfig_tinyConfig 4, hname, hu, hu', hn .r, by rw [hn' .r, hn .r]; rfl, hle⟩

/-- An extent that is rounded to a smaller one loses, and one that is rounded to zero gives no workload. -/
theorem rounded_down :
    (ofConfig (tinyConfig 2) = .ok (tiny 2) ∧ "tiny" ∈ (tiny 2).names ∧
      ∃ n n', (tiny 2).Usable "tiny" false n ∧ (tiny 2).Usable "tiny" true n' ∧
        (n' .r).toInt < (n .r).toInt) ∧
    ofConfig (tinyConfig 0) = .ok (tiny 0) ∧ "tiny" ∈ (tiny 0).names ∧
      (tiny 0).lookup (.text "tiny") (.flag true) = .ok (tinyBounds 0) ∧
      ∀ w, Workload.ofLayer (tiny 0) (.text "tiny") (.flag true) ≠ .ok w := by
  have hpadded : (tiny 2).lookup (.text "tiny") (.flag true) = .ok (tinyBounds 2) :=
    eq_ok_of_toOption (by decide +kernel)
  have hpos (extent : ℤ) (hextent : 0 < extent) (d : Dim) :
      0 < (Numeral.plain (if d = .r then extent else 1)).toInt := by
    rw [Numeral.toInt_plain]
    split
    · exact hextent
    · exact Int.one_pos
  have hrefused : (Workload.ofLayer (tiny 0) (.text "tiny") (.flag true)).toOption.isNone := by
    decide +kernel
  refine ⟨⟨ofConfig_tinyConfig 2, List.mem_cons_self, _, _,
    (usable_of_lookup (lookup_not_padded rfl) (lookup_tinyBounds 3)).mpr (hpos 3 (by decide)),
    (usable_of_lookup hpadded (lookup_tinyBounds 2)).mpr (hpos 2 (by decide)), by decide⟩,
    ofConfig_tinyConfig 0, List.mem_cons_self,
    eq_ok_of_toOption (by decide +kernel), fun w hw => ?_⟩
  rw [hw] at hrefused
  cases hrefused

end Registry

end LoopTiling
