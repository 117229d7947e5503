import LoopTiling.Proofs.MapSpace.Checking
import LoopTiling.Proofs.MapSpace.Reload
import LoopTiling.Proofs.MapSpace.Texts

/-!
# What an index is decoded to

An index in range is decoded to a mapping that records the member of a plan that fits. The checks against
the workload find nothing in it, it can be written, and nothing but a limit on the digits of a number
stands against showing it. Any other index is refused.
-/
namespace LoopTiling

namespace MapSpace

/-- An index that is out of range is refused. -/
theorem decode_of_out_of_range (m : MapSpace) {n : ℤ} (hn : n < 0 ∨ m.size ≤ n) :
    m.decode (.int n) = .error (.indexRange "mapping" n (.int m.size)) := by
  rw [decode, Value.placeIn_int_of_out_of_range hn]
  rfl

theorem range_of_decode {m : MapSpace} {n : ℤ} {mapping : Mapping}
    (hmapping : m.decode (.int n) = .ok mapping) : 0 ≤ n ∧ n < m.size := by
  by_contra hout
  rw [m.decode_of_out_of_range (by omega)] at hmapping
  cases hmapping

variable [Text.DigitLimit] {w : Workload} {h : Hierarchy} {m : MapSpace}

theorem exists_follows (hm : build w h = .ok m) {i : ℕ} (hi : i < m.size) : ∃ mapping p,
    m.decode (.int i) = .ok mapping ∧ mapping.Follows h p ∧ p.Fits w h ∧
      mapping.mappingId = .int i ∧ mapping.workloadName = w.name ∧ mapping.levelNames = .list h.names ∧
      ∃ config, mapping.toConfig = .ok config := by
  obtain ⟨ha, rfl, -⟩ := build_eq_ok.mp hm
  obtain ⟨p, hp, hfollows, hdecode⟩ := exists_plan ha hi
  exact ⟨_, p, hdecode, hfollows, hp, rfl, rfl, rfl, exists_toConfig_mappingOf (layout w h) i _⟩

/-- An index in range is decoded to a mapping in which the checks against the workload find nothing, that
can be written, and that can be shown unless it is not legible. -/
theorem exists_decode (hm : build w h = .ok m) {i : ℕ} (hi : i < m.size) : ∃ mapping config,
    m.decode (.int i) = .ok mapping ∧ mapping.validate w = .ok [] ∧ mapping.toConfig = .ok config ∧
      FailsOnly (Fault.Unshown mapping.Legible) mapping.pretty := by
  obtain ⟨mapping, p, hdecode, hfollows, hp, hid, hname, hnames, config, hconfig⟩ :=
    exists_follows hm hi
  obtain ⟨ha, rfl, hshown⟩ := build_eq_ok.mp hm
  refine ⟨mapping, config, hdecode, hfollows.validate_eq_nil hp, hconfig, ?_⟩
  have hid' : mapping.mappingId.text?.isSome := hid ▸
    Mapping.isSome_text?_int (Text.isShort_mono (Nat.le_of_lt hi) hshown.size)
  have hname' : mapping.workloadName.text?.isSome := hname ▸ hshown.name
  have hhead : FailsOnly (Fault.Unshown mapping.Legible) mapping.headLine :=
    (failsOnly_shown fun _ => hid').bind fun _ _ =>
      (failsOnly_shown fun _ => hname').bind fun _ _ => failsOnly_ok _
  have hbody : FailsOnly (Fault.Unshown mapping.Legible) mapping.bodyLines :=
    hfollows.failsOnly_bodyLines hnames fun e he => (hp.split_range ha.split_range he).1
  exact hhead.bind fun _ _ => hbody.bind fun _ _ => failsOnly_ok _

/-- Where the names of the levels have texts, and the product of the bounds and the numbers of levels
and of dimensions are short, all that is decoded is legible. -/
theorem legible_of_decode (hm : build w h = .ok m) (hlevels : ∀ l ∈ h.levels, l.name.text?.isSome)
    (hcount : Text.isShort h.levelCount) (hdims : Text.isShort Dim.count)
    (hvolume : Text.isShort (Radix.volume w.bounds.toList)) {n : ℤ} {mapping : Mapping}
    (hmapping : m.decode (.int n) = .ok mapping) : mapping.Legible := by
  have hn := range_of_decode hmapping
  obtain ⟨i, rfl⟩ := Int.eq_ofNat_of_zero_le hn.1
  obtain ⟨_, p, hdecode, hfollows, hp, -, -, hnames, -⟩ := exists_follows hm (Int.ofNat_lt.mp hn.2)
  obtain rfl := Except.ok.inj (hdecode.symm.trans hmapping)
  obtain ⟨ha, -, -⟩ := build_eq_ok.mp hm
  exact hfollows.legible hp hnames ha.split_range hlevels hcount hdims hvolume

/-- Nothing but a limit of the digits stands against showing what is decoded. -/
theorem failsOnly_pretty (hm : build w h = .ok m) {n : ℤ} {mapping : Mapping}
    (hdecode : m.decode (.int n) = .ok mapping)
    (hpretty : FailsOnly (Fault.Unshown mapping.Legible) mapping.pretty) :
    FailsOnly Fault.OfLimit mapping.pretty := by
  refine hpretty.mono fun fault hf => ⟨fun hl => hf.1 ?_, hf.2⟩
  exact legible_of_decode hm (fun _ _ => Value.isSome_text? hl _)
    (Text.isShort_of_unlimited hl _) (Text.isShort_of_unlimited hl _) (Text.isShort_of_unlimited hl _)
    hdecode

end MapSpace

end LoopTiling
