import LoopTiling.Proofs.MapSpace.Build

/-!
# Workloads that pose the same problem

The construction of a mapspace reads the name and the bounds of a workload only. Two workloads that agree
in these are refused alike, or have mapspaces of the same size that decode every index alike.
-/
namespace LoopTiling

/-- Whether two workloads have the same name and the same bounds. -/
structure Workload.SameProblem (w w' : Workload) : Prop where
  name : w'.name = w.name
  bounds : w'.bounds = w.bounds

namespace MapSpace

variable {w w' : Workload} {h : Hierarchy}

theorem prunedAt_congr (hb : w'.bounds = w.bounds) : prunedAt w' h = prunedAt w h := by
  have hunit : isUnit w' = isUnit w := by
    funext l d
    rw [isUnit, isUnit, hb]
  funext l
  rw [prunedAt, prunedAt, hunit]

/-- A mapspace as that of another workload. -/
def ofWorkload (m : MapSpace) (w : Workload) : MapSpace := { m with workload := w }

theorem decode_ofWorkload {m : MapSpace} (hw : m.workload.SameProblem w') (v : Value) :
    (m.ofWorkload w').decode v = m.decode v := by
  have hmapping : (m.ofWorkload w').mappingOf = m.mappingOf := by
    funext place a
    rw [mappingOf, mappingOf, ofWorkload, Workload.boundValues, Workload.boundValues, hw.name,
      hw.bounds]
  rw [decode, decode, hmapping]
  rfl

variable [Text.DigitLimit]

theorem assemble_congr (hb : w'.bounds = w.bounds) :
    assemble w' h = (fun m => m.ofWorkload w') <$> assemble w h := by
  have hfactors : factorSpace w' h = factorSpace w h := by simp only [factorSpace, hb]
  have horder : setOrder w' h = setOrder w h := by
    funext s level
    rw [setOrder, setOrder, prunedAt_congr hb]
  have hsplit : setSplit w' h = setSplit w h := by
    funext s level
    rw [setSplit, setSplit, prunedAt_congr hb]
  simp only [assemble, orderSpace, splitSpace, hfactors, horder, hsplit, prunedAt_congr hb, map_bind]
  rfl

theorem checked_ofWorkload {m : MapSpace} (hn : w'.name = m.workload.name) :
    (m.ofWorkload w').checked = (fun m => m.ofWorkload w') <$> m.checked := by
  have hline : (m.ofWorkload w').builtLine = m.builtLine := by
    have hname : (m.ofWorkload w').workload.name = m.workload.name := hn
    rw [builtLine, builtLine, hname]
    rfl
  rw [checked, checked, hline, map_bind]
  rfl

theorem build_congr (hw : w.SameProblem w') :
    build w' h = (fun m => m.ofWorkload w') <$> build w h := by
  rw [build, build, assemble_congr hw.bounds]
  cases hm : assemble w h with
  | error fault => rfl
  | ok m =>
    have hname : w'.name = m.workload.name := by
      rw [(assemble_eq_ok.mp hm).2]
      exact hw.name
    exact checked_ofWorkload hname

/-- Workloads that pose the same problem are refused alike on a hierarchy, or have mapspaces of the same
size in which every index names the same mapping. -/
theorem build_sameProblem (hw : w.SameProblem w') (h : Hierarchy) :
    (∃ fault, build w h = .error fault ∧ build w' h = .error fault) ∨
      ∃ m m', build w h = .ok m ∧ build w' h = .ok m' ∧ m'.size = m.size ∧
        ∀ v, m'.decode v = m.decode v := by
  have hbuild := build_congr (h := h) hw
  cases hm : build w h with
  | error fault => exact .inl ⟨fault, rfl, by rw [hbuild, hm]; rfl⟩
  | ok m =>
    rw [hm] at hbuild
    have hworkload : m.workload = w := by
      rw [(build_eq_ok.mp hm).2.1]
      rfl
    exact .inr ⟨m, _, rfl, hbuild, rfl, decode_ofWorkload (hworkload ▸ hw)⟩

end MapSpace

end LoopTiling
