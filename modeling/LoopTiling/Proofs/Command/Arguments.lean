import Mathlib.Data.List.TakeWhile
import LoopTiling.Command.Arguments
import LoopTiling.Proofs.Numerals

/-!
# Reading the arguments of a command

An argument that does not start with a dash is a value, and so is a whole number. An option that takes a
value and stands before one sets its key to it. From these steps it follows what the arguments that show
one mapping and write it to a file are read as.
-/
namespace LoopTiling.Command

theorem classify_of_not_dash (specs : List OptionSpec) {arg : List Char}
    (h : arg.head? ≠ some '-') : classify specs arg = .plain := by
  unfold classify
  split
  · exact absurd rfl h
  · rfl

/-- Whether no name of an option starts like a negative number. -/
def NoNumbers (specs : List OptionSpec) : Prop :=
  ∀ s ∈ specs, ∀ n ∈ s.names, n.toList[1]?.all (!Char.isDigit ·)

instance (specs : List OptionSpec) : Decidable (NoNumbers specs) := inferInstanceAs (Decidable (∀ _ ∈ _, _))

theorem specOf?_of_isDigit {specs : List OptionSpec} (hspecs : NoNumbers specs) {c : Char}
    (hc : c.isDigit) (rest : List Char) : specOf? specs ('-' :: c :: rest) = none := by
  rw [specOf?, List.find?_eq_none]
  intro s hs hmatch
  obtain ⟨n, hn, hname⟩ := List.any_eq_true.mp hmatch
  have hdigit := hspecs s hs n hn
  rw [of_decide_eq_true hname] at hdigit
  simp [hc] at hdigit

theorem classify_negative {specs : List OptionSpec} (hspecs : NoNumbers specs) {digits : List Char}
    (hdigits : ∀ c ∈ digits, c.isDigit) (hne : digits ≠ []) :
    classify specs ('-' :: digits) = .plain := by
  obtain ⟨c, rest, rfl⟩ := List.exists_cons_of_ne_nil hne
  have hc : c.isDigit := hdigits c List.mem_cons_self
  have hnot (c' : Char) (hc' : c'.isDigit = false) : c' ∉ c :: rest := fun hmem => by
    rw [hdigits c' hmem] at hc'
    cases hc'
  have hseparator : '-' :: c :: rest ≠ ['-', '-'] := by
    intro he
    simp only [List.cons.injEq, true_and] at he
    exact hnot '-' (by decide) (he.1 ▸ List.mem_cons_self)
  have hequals : splitAtEquals ('-' :: c :: rest) = none := by
    have hdrop : ('-' :: c :: rest).dropWhile (· ≠ '=') = [] := by
      rw [List.dropWhile_eq_nil_iff]
      intro c' hc'
      rcases List.mem_cons.mp hc' with rfl | hc'
      · decide
      · exact decide_eq_true fun he => hnot '=' (by decide) (he ▸ hc')
    rw [splitAtEquals, hdrop]
  have hcandidates : candidates specs ('-' :: c :: rest) = [] := by
    have hdash : c ≠ '-' := fun he => hnot '-' (by decide) (he ▸ List.mem_cons_self)
    rw [candidates, specOf?_of_isDigit hspecs hc []]
    exact hdash
  have hnumber : isNegativeNumber ('-' :: c :: rest) = true := by
    have hlast : withoutLineEnd ('-' :: c :: rest) = '-' :: c :: rest := by
      rw [withoutLineEnd, if_neg]
      intro hlast
      have hmem := List.mem_of_getLast? hlast
      rcases List.mem_cons.mp hmem with hmem | hmem
      · exact absurd hmem (by decide)
      · exact hnot '\n' (by decide) hmem
    have hall : (c :: rest).dropWhile (fun c => (Text.digitValue? c).isSome) = [] := by
      rw [List.dropWhile_eq_nil_iff]
      exact fun c' hc' => by rw [Text.digitValue?_of_isDigit (hdigits c' hc')]; rfl
    simp only [isNegativeNumber, hlast, hall]
    rfl
  unfold classify
  rw [if_neg hseparator, specOf?_of_isDigit hspecs hc rest, hequals, hcandidates, hnumber]
  rfl

/-- A whole number is taken as a value, also if it is negative. -/
theorem classify_toString {specs : List OptionSpec} (hspecs : NoNumbers specs) (n : ℤ) :
    classify specs (toString n).toList = .plain := by
  have hdigits : ∀ c ∈ Nat.toDigits 10 n.natAbs, c.isDigit := fun _ => Text.isDigit_toDigits
  rw [Text.toString_int_toList]
  split
  · refine classify_of_not_dash specs fun hhead => ?_
    exact absurd (hdigits '-' (List.mem_of_head? hhead)) (by decide)
  · exact classify_negative hspecs hdigits Nat.toDigits_ne_nil

theorem noNumbers_mainSpecs : NoNumbers mainSpecs := by decide +kernel

theorem noNumbers_decodeSpecs : NoNumbers decodeSpecs := by decide +kernel

/-- Whether the program and its command that decodes take an argument as a value. -/
structure IsValue (arg : String) : Prop where
  ne_empty : arg ≠ ""
  plain : classify decodeSpecs arg.toList = .plain
  notAmbiguous : classify mainSpecs arg.toList ≠ .ambiguous

theorem isValue_of_not_dash {arg : String} (hne : arg ≠ "") (h : arg.toList.head? ≠ some '-') :
    IsValue arg where
  ne_empty := hne
  plain := classify_of_not_dash _ h
  notAmbiguous := by
    rw [classify_of_not_dash _ h]
    exact nofun

theorem isValue_toString (n : ℤ) : IsValue (toString n) where
  ne_empty h := by
    have hlist := Text.toString_int_toList n
    rw [h] at hlist
    exact Nat.toDigits_ne_nil (List.append_eq_nil_iff.mp hlist.symm).2
  plain := classify_toString noNumbers_decodeSpecs n
  notAmbiguous := by
    rw [classify_toString noNumbers_mainSpecs n]
    exact nofun

theorem hasAmbiguous_of_forall {tokens : List (String × Token)}
    (h : ∀ t ∈ tokens, t.2 ≠ .ambiguous) : hasAmbiguous tokens = false := by
  induction tokens with
  | nil => rfl
  | cons t tokens ih =>
    obtain ⟨arg, token⟩ := t
    rw [List.forall_mem_cons] at h
    cases token with
    | separator => rfl
    | ambiguous => exact absurd rfl h.1
    | plain | option | unknown => exact ih h.2

section Limited

variable [Text.DigitLimit]

theorem accept_singleton {before : List Setting} {s : Setting} (hhelp : s.1 ≠ .help)
    (hs : isAdmissible before s) : accept before [s] = .ok (before ++ [s]) := by
  rw [accept, if_neg hhelp, if_pos hs, accept]

/-- An option that takes a value and a value behind it are one setting. -/
theorem scan_option_value {key : Key} (hkey : key ≠ .help) {before : List Setting} {value : String}
    (hvalue : isAdmissible before (key, some value)) (specs : List OptionSpec)
    (awaitsCommand leftover : Bool) (names : List String) (arg : String) (name : List Char)
    (rest : List (String × Token)) :
    scan specs awaitsCommand before leftover
        ((arg, .option ⟨⟨key, names, true⟩, name, none⟩) :: (value, .plain) :: rest) =
      scan specs awaitsCommand (before ++ [(key, some value)]) leftover rest := by
  have hexpand : Use.expand specs ⟨⟨key, names, true⟩, name, none⟩ = some ([], some key) := rfl
  rw [scan, hexpand]
  simp only [List.nil_append, accept_singleton hkey hvalue]

theorem scanAll_command {specs : List OptionSpec} {name : String} {args : List String}
    (hname : classify specs name.toList = .plain)
    (hargs : ∀ a ∈ args, classify specs a.toList ≠ .ambiguous) :
    scanAll specs true (name :: args) = .command [] false name args := by
  have htokens : ∀ t ∈ classifyAll specs (name :: args), t.2 ≠ .ambiguous := by
    refine List.forall_mem_map.mpr (List.forall_mem_cons.mpr ⟨?_, hargs⟩)
    rw [hname]
    exact nofun
  have hfst : (args.map fun a => (a, classify specs a.toList)).map Prod.fst = args := by
    rw [List.map_map]
    exact List.map_id args
  rw [scanAll, hasAmbiguous_of_forall htokens, if_neg Bool.false_ne_true, classifyAll, List.map_cons,
    hname, scan, if_pos rfl, hfst]

/-- What is set to show one mapping and write it to a file. -/
def decodeSettings (workload arch : String) (n : ℤ) (output : String) : List Setting :=
  [(.workload, some workload), (.arch, some arch), (.index, some (toString n)),
    (.output, some output)]

theorem scanAll_decode {workload arch output : String} (hw : IsValue workload) (ha : IsValue arch)
    (ho : IsValue output) {n : ℤ} (hn : Text.allowsDigits (Decimal.digitCount n.natAbs)) :
    scanAll decodeSpecs false ["-w", workload, "-a", arch, "--index", toString n, "-o", output] =
      .finished (decodeSettings workload arch n output) false := by
  have htokens : classifyAll decodeSpecs
      ["-w", workload, "-a", arch, "--index", toString n, "-o", output] =
      [("-w", .option ⟨⟨.workload, ["-w", "--workload"], true⟩, "-w".toList, none⟩),
        (workload, .plain),
        ("-a", .option ⟨⟨.arch, ["-a", "--arch"], true⟩, "-a".toList, none⟩), (arch, .plain),
        ("--index", .option ⟨⟨.index, ["--index"], true⟩, "--index".toList, none⟩),
        (toString n, .plain),
        ("-o", .option ⟨⟨.output, ["-o", "--output"], true⟩, "-o".toList, none⟩),
        (output, .plain)] := by
    simp only [classifyAll, List.map_cons, List.map_nil, hw.plain, ha.plain, ho.plain,
      (isValue_toString n).plain]
    rfl
  have hindex : isAdmissible [(.workload, some workload), (.arch, some arch)]
      (.index, some (toString n)) := by
    rw [isAdmissible, Text.readInt?_toString hn]
    rfl
  have hclear : hasAmbiguous (classifyAll decodeSpecs
      ["-w", workload, "-a", arch, "--index", toString n, "-o", output]) = false := by
    rw [htokens]
    rfl
  rw [scanAll, hclear, if_neg Bool.false_ne_true, htokens, scan_option_value (by decide) rfl,
    scan_option_value (by decide) rfl]
  exact (scan_option_value (by decide) hindex ..).trans (scan_option_value (by decide) rfl ..)

/-- What the command line of a mapping that is shown and written to a file is read as. -/
theorem readArguments_decode {workload arch output : String} (hw : IsValue workload)
    (ha : IsValue arch) (ho : IsValue output) {n : ℤ}
    (hn : Text.allowsDigits (Decimal.digitCount n.natAbs)) :
    readArguments ["decode", "-w", workload, "-a", arch, "--index", toString n, "-o", output] =
      .accepted ⟨false, none, some (.decode ⟨workload, some arch, true⟩ (.index n) (some output))⟩ := by
  have hmain : ∀ a ∈ ["-w", workload, "-a", arch, "--index", toString n, "-o", output],
      classify mainSpecs a.toList ≠ .ambiguous := by
    have hoption (name : String) (h : classify mainSpecs name.toList = .unknown) :
        classify mainSpecs name.toList ≠ .ambiguous := h ▸ nofun
    simp only [List.forall_mem_cons]
    exact ⟨hoption "-w" rfl, hw.notAmbiguous, hoption "-a" rfl, ha.notAmbiguous,
      hoption "--index" rfl, (isValue_toString n).notAmbiguous, hoption "-o" rfl, ho.notAmbiguous,
      nofun⟩
  have hnumber : numberOf? .index (decodeSettings workload arch n output) = some n :=
    Text.readInt?_toString hn
  have hgiven (v : String) (hv : v ≠ "") : (if v.isEmpty then none else some v) = some v :=
    if_neg fun h => hv (String.isEmpty_iff.mp h)
  have hrequest : requestOf? "decode" (decodeSettings workload arch n output) =
      some (.decode ⟨workload, some arch, true⟩ (.index n) (some output)) := by
    have harch : valueOf? .arch (decodeSettings workload arch n output) = some arch :=
      hgiven arch ha.ne_empty
    have houtput : valueOf? .output (decodeSettings workload arch n output) = some output :=
      hgiven output ho.ne_empty
    simp only [requestOf?, problemOf?, pickOf?, hnumber, harch, houtput]
    rfl
  rw [readArguments, scanAll_command rfl hmain]
  simp only [readCommand, specsOf?, scanAll_decode hw ha ho hn, hrequest]
  rfl

end Limited

end LoopTiling.Command
