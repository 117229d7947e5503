import LoopTiling.Proofs.Command.Arguments
import LoopTiling.Proofs.Command.Loading
import LoopTiling.Proofs.MapSpace.Decoding

/-!
# Showing one mapping and writing it

The command that decodes an index shows the size of the mapspace and the mapping, and writes the mapping
as a document. The checks it makes before it writes find nothing, so for an index in range it always ends
well, and for another one it ends before anything is shown.
-/
namespace LoopTiling

namespace Command

section Limited

variable [Text.DigitLimit]

variable {env : Environment} {w : Workload} {h : Hierarchy} {m : MapSpace}

theorem runDecode_in_range {w : Workload} {h : Hierarchy} {m : MapSpace} (hm : MapSpace.build w h = .ok m)
    {n : ℤ} {mapping : Mapping} {size text output place : String} {config : Value}
    (hdecode : m.decode (.int n) = .ok mapping) (hsize : Decimal.count? m.size = some size)
    (hpretty : mapping.pretty = .ok text) (hvalid : mapping.validate w = .ok [])
    (hplace : env.files.placeToWrite output = .ok place) (hconfig : mapping.toConfig = .ok config)
    (s : Session) : ∃ records, Calm records ∧
      (runDecode env (.index n) (some output) w h).after s = (.ok 0, { s with
        printed := s.printed ++ [s!"Mapspace size: {size}\n", text ++ "\n",
          s!"\nMapping saved to: {output}\n"]
        journal := s.journal ++ records
        written := s.written ++ [(place, Document.block config)] }) := by
  obtain ⟨records, hcalm, hbuild⟩ := reports_buildMapSpace w h s
  rw [hm] at hbuild
  refine ⟨records, hcalm, ?_⟩
  rw [runDecode, Task.after_bind_of_ok hbuild]
  simp only [hdecode, hsize, hpretty, hvalid, hplace, hconfig, shown, Task.after_bind, Task.after_check,
    Task.after_print, Task.after_note, Task.after_write, Task.after_pure, List.append_assoc,
    List.map_nil, List.append_nil]
  rfl

theorem runDecode_out_of_range (hm : MapSpace.build w h = .ok m) {n : ℤ} (hn : n < 0 ∨ m.size ≤ n)
    (output : Option String) (s : Session) : ∃ records, Calm records ∧
      (runDecode env (.index n) output w h).after s =
        (.error (.indexRange "mapping" n (.int m.size)),
          { s with journal := s.journal ++ records }) := by
  obtain ⟨records, hcalm, hbuild⟩ := reports_buildMapSpace w h s
  rw [hm] at hbuild
  refine ⟨records, hcalm, ?_⟩
  rw [runDecode, Task.after_bind_of_ok hbuild]
  simp only [m.decode_of_out_of_range hn, Task.after_bind, Task.after_check]

/-- The error line of an index that is out of range. -/
theorem finish_out_of_range {what : String} {n : ℤ} {size : ℕ} (hn : Text.isShort n)
    (hsize : Text.isShort size) : finish false (.error (.indexRange what n (.int size))) {} =
      ⟨.ok 1, ⟨["Error: " ++ s!"{what} index {n} out of range [0, {size})" ++ "\n"], [], []⟩⟩ := by
  have hn' : Text.decimal? n = some (toString n) := if_pos hn
  have hsize' : (Value.int size).text? = some (toString size) := by
    have htext : (Value.int size).text? = Text.decimal? size := rfl
    rw [htext, Text.decimal?, if_pos hsize, Text.toString_int, if_pos (Int.natCast_nonneg _)]
    rfl
  have hsentence : (Fault.indexRange what n (.int size)).sentence? =
      some s!"{what} index {n} out of range [0, {size})" := by
    rw [Fault.sentence?, hn', hsize']
    simp only [Fault.said, List.mapM_cons, List.mapM_nil, id_eq, Option.pure_def, Option.bind_eq_bind,
      Option.bind_some, Option.map_eq_map, Option.map_some]
    rfl
  have hkind : isReported (.indexRange what n (.int size)) := by
    rw [isReported, Fault.kind, if_pos (by rw [hsentence]; rfl)]
    rfl
  have htext : faultText (.indexRange what n (.int size)) =
      s!"{what} index {n} out of range [0, {size})" := by
    rw [faultText, hsentence]
    · rfl
    · simp
  simp only [finish, if_pos hkind, htext, Bool.false_eq_true, if_false, List.nil_append]
  rfl

/-- The journal of a command that reports no errors and is not verbose has nothing in it. -/
theorem run_of_calm {args : List String} {layersFile : Option String} {request : Request}
    (hargs : readArguments args = .accepted ⟨false, layersFile, some request⟩)
    {result : Except Fault ℕ} {s : Session}
    (hrun : (runRequest env ⟨false, layersFile, some request⟩ request).outcome = (result, s))
    (hcalm : Calm s.journal) :
    run env args = finish false result ⟨s.printed, [], s.written⟩ := by
  rw [run, hargs]
  simp only [hrun]
  cases result with
  | ok status => simp only [finish, shown_eq_nil_of_calm hcalm]
  | error fault =>
    simp only [finish]
    split <;> simp only [Bool.false_eq_true, if_false, List.append_nil, shown_eq_nil_of_calm hcalm]

theorem run_decode {args : List String} {problem : Problem} {pick : Pick} {output : Option String}
    (hargs : readArguments args = .accepted ⟨false, none, some (.decode problem pick output)⟩)
    (hload : (loadProblem env none problem).outcome.1 = .ok (w, h)) {result : Except Fault ℕ}
    {printed : List String} {written : List (String × String)}
    (hrun : ∀ s : Session, ∃ records, Calm records ∧ (runDecode env pick output w h).after s = (result,
      { s with printed := s.printed ++ printed, journal := s.journal ++ records,
               written := s.written ++ written })) :
    run env args = finish false result ⟨printed, [], written⟩ := by
  obtain ⟨records, hcalm, hloaded⟩ := reports_loadProblem env none problem {}
  rw [← (reports_loadProblem env none problem).outcome, hload] at hloaded
  obtain ⟨records', hcalm', hdone⟩ := hrun ⟨[], records, []⟩
  refine run_of_calm (s := ⟨printed, records ++ records', written⟩) hargs ?_ (hcalm.append hcalm')
  rw [runRequest, Task.outcome_eq_after, Task.after_bind_of_ok hloaded]
  exact hdone

end Limited

def samplePairWorkload : Workload :=
  ⟨Workload.defaultName, ⟨1, 1, 1, 1, 2, 1, 1⟩, Workload.unitPair, Workload.unitPair, .text "w.yaml"⟩

/-- A spatial level below a temporal one. -/
def samplePairHierarchy : Hierarchy where
  levels := [{ name := .text "Mesh", spatial := .flag true }, { name := .text "Main" }]

/-- The documents of a workload with one extent of two and of two levels. -/
def pairEnvironment : Environment where
  files.documents := [
    ("w.yaml", .map [(.text "problem", .map (Dim.all.map fun d =>
      (.text d.name, .int (samplePairWorkload.bounds.get d))))]),
    ("a.yaml", .map [(.text "levels", .list [
      .map [(.text "name", .text "Mesh"), (.text "spatial", .flag true)],
      .map [(.text "name", .text "Main")]])])]
  draw _ _ := 0
  elapsed := .zero false

theorem load_pairEnvironment :
    (loadProblem pairEnvironment none ⟨"w.yaml", some "a.yaml", true⟩).outcome.1 =
      .ok (samplePairWorkload, samplePairHierarchy) := rfl

end Command

end LoopTiling
