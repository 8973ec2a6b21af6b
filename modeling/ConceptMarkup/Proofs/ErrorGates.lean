import Mathlib.Algebra.BigOperators.Group.List.Lemmas
import Mathlib.Data.List.Dedup
import ConceptMarkup.CommandLine.Run
import ConceptMarkup.Generation
import ConceptMarkup.Proofs.Findings

/-! The places where a document with errors is held back. Whether there are errors, and how many, is
a matter of the names of a document alone; every gate says the same of it. -/
namespace ConceptMarkup

/-- What is found in a document is a number of errors and then a number of warnings. -/
structure Diagnostic.Graded (ds errors warnings : List Diagnostic) : Prop where
  whole : ds = errors ++ warnings
  errors : ∀ d ∈ errors, d.severity = .error
  warnings : ∀ d ∈ warnings, d.severity = .warning

namespace Diagnostic.Graded

variable {ds errors warnings : List Diagnostic}

theorem filter_isError (h : Graded ds errors warnings) : ds.filter (·.isError) = errors := by
  have he : ∀ d ∈ errors, d.isError = true := fun d hd => decide_eq_true (h.errors d hd)
  have hw : ∀ d ∈ warnings, ¬ d.isError = true := by
    intro d hd
    rw [Diagnostic.isError, h.warnings d hd]
    exact Bool.false_ne_true
  rw [h.whole, List.filter_append, List.filter_eq_self.mpr he, List.filter_eq_nil_iff.mpr hw,
    List.append_nil]

private theorem any_isError (h : Graded ds errors warnings) :
    ds.any (·.isError) ↔ errors ≠ [] := by
  rw [List.any_eq_true, ← h.filter_isError, ne_eq, List.filter_eq_nil_iff]
  push Not
  rfl

private theorem checkReady_eq (h : Graded ds errors warnings) :
    (errors = [] → checkReady ds = .ok ()) ∧
      (errors ≠ [] → ∃ first, ds.head? = some first ∧
        checkReady ds = .error ⟨errors.length, first.display⟩) := by
  rw [checkReady, h.filter_isError, h.whole]
  cases errors with
  | nil => exact ⟨fun _ => rfl, fun hn => absurd rfl hn⟩
  | cons first rest =>
    refine ⟨fun hn => absurd hn (List.cons_ne_nil _ _), fun _ => ?_⟩
    exact ⟨first, rfl, rfl⟩

private theorem counted_eq (n : Nat) (noun : String) :
    counted n noun = toString n ++ if n = 1 then " " ++ noun else " " ++ noun ++ "s" := by
  rw [counted]
  split
  · simp [toString, String.append_assoc]
  · simp [toString, String.append_assoc]

private theorem tally_eq (h : Graded ds errors warnings) :
    tally ds =
      toString errors.length ++ (if errors.length = 1 then " error" else " errors") ++ ", " ++
        toString warnings.length ++
          (if warnings.length = 1 then " warning" else " warnings") := by
  have he : errors.map (·.severity) = List.replicate errors.length .error :=
    List.map_eq_replicate_iff.mpr h.errors
  have hw : warnings.map (·.severity) = List.replicate warnings.length .warning :=
    List.map_eq_replicate_iff.mpr h.warnings
  rw [tally, tallyOf, h.whole, List.map_append, he, hw]
  simp [List.count_replicate, counted_eq, toString, String.append_assoc]

end Diagnostic.Graded

namespace Document

/-- Something is wrong with the names of a document: two concepts share one, or a reference has one
that no concept has. -/
def Faulty (d : Document) : Prop :=
  ¬ (d.concepts.map (·.name)).Nodup ∨ ∃ r ∈ d.occurrences, r.name ∉ d.definedNames

/-- The concepts beyond the first of each name, and the references to names without a concept. -/
def faults (d : Document) : Nat :=
  (d.concepts.length - d.definedNames.length) + d.occurrences.countP (·.name ∉ d.definedNames)

def errors (d : Document) (options : Options) : List Diagnostic :=
  d.duplicateErrors ++ d.undefinedErrors options

def warnings (d : Document) (options : Options) : List Diagnostic :=
  if options.unusedConcepts then d.unusedWarnings else []

private theorem length_duplicateErrors (d : Document) :
    d.duplicateErrors.length = d.concepts.length - d.definedNames.length := by
  have := Concept.length_redefinitions d.concepts
  rw [duplicateErrors, List.length_map, definedNames]
  omega

private theorem length_undefinedErrors (d : Document) (options : Options) :
    (d.undefinedErrors options).length = d.occurrences.countP (·.name ∉ d.definedNames) := by
  have hg : ∀ name, (Reference.to name d.occurrences).length =
      (d.occurrences.map (·.name)).count name := by
    intro name
    rw [Reference.to, ← List.countP_eq_length_filter, List.count, List.countP_map]
    rfl
  have hp := (eraseDups_perm_dedup (d.occurrences.map (·.name))).filter (· ∉ d.definedNames)
  have hs := (hp.map fun name => (d.occurrences.map (·.name)).count name).sum_eq
  rw [List.sum_map_count_dedup_filter_eq_countP, List.countP_map] at hs
  rw [undefinedErrors, List.length_flatMap, referencedNames]
  simp only [List.length_map, hg]
  exact hs

theorem graded_analyze (d : Document) (options : Options) :
    Diagnostic.Graded (analyze d options) (d.errors options) (d.warnings options) := by
  refine ⟨?_, ?_, ?_⟩
  · rw [analyze_eq, errors, warnings, List.append_assoc]
  · intro e he
    exact severity_of_mem_errors he
  · intro e he
    rw [warnings] at he
    split at he
    · exact severity_of_mem_unusedWarnings he
    · cases he

private theorem length_errors (d : Document) (options : Options) :
    (d.errors options).length = d.faults := by
  rw [errors, List.length_append, length_duplicateErrors, length_undefinedErrors, faults]

private theorem nodup_names_iff {d : Document} :
    d.concepts.length - d.definedNames.length = 0 ↔ (d.concepts.map (·.name)).Nodup := by
  have hl : d.definedNames.length = (d.concepts.map (·.name)).dedup.length :=
    (eraseDups_perm_dedup _).length_eq
  have hn : (d.concepts.map (·.name)).length = d.concepts.length := List.length_map _
  have hs := List.dedup_sublist (d.concepts.map (·.name))
  rw [hl, ← hn, Nat.sub_eq_zero_iff_le, ← List.dedup_eq_self]
  constructor
  · exact hs.eq_of_length_le
  · intro he
    rw [he]

private theorem faults_eq_zero_iff {d : Document} : d.faults = 0 ↔ ¬ d.Faulty := by
  rw [faults, Nat.add_eq_zero_iff, nodup_names_iff, List.countP_eq_zero, Faulty]
  simp

private theorem errors_ne_nil_iff {d : Document} {options : Options} :
    d.errors options ≠ [] ↔ d.Faulty := by
  rw [ne_eq, ← List.length_eq_zero_iff, length_errors, faults_eq_zero_iff, not_not]

end Document

namespace CommandLine

private theorem dropByteOrderMark_eq {text source : String}
    (h : text = "\ufeff" ++ source ∨ text = source ∧ source.toList.head? ≠ some '\ufeff') :
    dropByteOrderMark text = source := by
  rcases h with rfl | ⟨rfl, h⟩
  · rw [dropByteOrderMark, String.toList_append]
    exact String.ofList_toList
  · rw [dropByteOrderMark]
    split
    · next hs =>
      rw [hs] at h
      exact absurd rfl h
    · rfl

private theorem exitCode_checkText (request : CheckRequest) (text : String) (options : Options) :
    (checkText request text options).exitCode =
      if (AnalyzedDocument.ofSource (dropByteOrderMark text) options).hasErrors then 1 else 0 := by
  rw [checkText]
  by_cases hq : request.quiet
  · simp [hq]
  · by_cases hj : request.json
    · simp [hq, hj]
    · simp [hq, hj]

end CommandLine

open CommandLine Document

/-- What the gates say of the document of a source. -/
structure GatesAgree (source : String) (options : Options) : Prop where
  found : (∃ e ∈ analyze (parse source) options, e.severity = .error) ↔ (parse source).Faulty
  analysis : (Analysis.ofDocument (parse source) options).hasErrors ↔ (parse source).Faulty
  opened : (AnalyzedDocument.ofSource source options).hasErrors ↔ (parse source).Faulty
  ready : ¬ (parse source).Faulty → checkReady (analyze (parse source) options) = .ok ()
  blocked : (parse source).Faulty → ∃ first,
    (analyze (parse source) options).head? = some first ∧
      checkReady (analyze (parse source) options) = .error ⟨(parse source).faults, first.display⟩
  /-- The text of a file may begin with a byte order mark, which is no part of the source. -/
  checked : ∀ (i : Invocation) (request : CheckRequest) (disk : Disk) (text : String),
    i.request = .check request → disk.readText request.file = .ok text →
    (text = "\ufeff" ++ source ∨ text = source ∧ source.toList.head? ≠ some '\ufeff') →
    ∃ outcome,
      i.runWith disk options = .ok (.checked outcome) ∧
      ((parse source).Faulty → outcome.exitCode = 1) ∧
      (¬ (parse source).Faulty → outcome.exitCode = 0)
  counted : (parse source).faults ≠ 0 ↔ (parse source).Faulty
  tallied :
    let errors := (parse source).faults
    let warnings := ((parse source).warnings options).length
    Diagnostic.tally (analyze (parse source) options) =
      toString errors ++ (if errors = 1 then " error" else " errors") ++ ", " ++
        toString warnings ++ (if warnings = 1 then " warning" else " warnings")

/-- Every gate holds a document back for the same reason, whatever the options and the output
flags, and all that count its errors count the same. -/
theorem error_gates_agree (source : String) (options : Options) : GatesAgree source options := by
  have hg := graded_analyze (parse source) options
  have hl := length_errors (parse source) options
  have hany : (AnalyzedDocument.ofSource source options).hasErrors ↔ (parse source).Faulty :=
    hg.any_isError.trans errors_ne_nil_iff
  obtain ⟨hready, hblocked⟩ := hg.checkReady_eq
  constructor
  · rw [← hany, AnalyzedDocument.hasErrors, List.any_eq_true]
    simp only [Diagnostic.isError, decide_eq_true_eq]
    rfl
  · exact hany
  · exact hany
  · intro hf
    exact hready (by simpa using errors_ne_nil_iff.not.mpr hf)
  · intro hf
    rw [← hl]
    exact hblocked (errors_ne_nil_iff.mpr hf)
  · intro i request disk text hr hd ht
    obtain rfl : dropByteOrderMark text = source := dropByteOrderMark_eq ht
    refine ⟨checkText request text options, ?_, ?_, ?_⟩
    · rw [Invocation.runWith, hr]
      simp only [hd]
    · intro hf
      rw [exitCode_checkText, if_pos (hany.mpr hf)]
    · intro hf
      rw [exitCode_checkText, if_neg (hany.not.mpr hf)]
  · rw [ne_eq, faults_eq_zero_iff, not_not]
  · rw [hg.tally_eq, hl]

/-- A file with a byte order mark in which a name is defined twice and another not at all: a quiet
check fails, generation is blocked by both errors, of which the first is shown, and both are
counted. -/
theorem error_gates_agree_behind_mark :
    let source := "@Cat meets @Dog\n@Cat"
    let disk : Disk := fun _ => .ok (.file (.ok ("\ufeff" ++ source)))
    let request : CheckRequest := { file := "pets", quiet := true }
    disk.readText request.file = .ok ("\ufeff" ++ source) ∧
      dropByteOrderMark ("\ufeff" ++ source) = source ∧ (parse source).Faulty ∧
      (parse source).faults = 2 ∧
      (∃ outcome, Invocation.runWith ⟨true, none, 0, .check request⟩ disk {} =
        .ok (.checked outcome) ∧ outcome.exitCode = 1) ∧
      (∃ first, (analyze (parse source) {}).head? = some first ∧
        first.display = "2:1: error[duplicate-definition]: concept `Cat` is already defined" ∧
        checkReady (analyze (parse source) {}) = .error ⟨2, first.display⟩) ∧
      Diagnostic.tally (analyze (parse source) {}) = "2 errors, 1 warning" := by
  have hf : (parse "@Cat meets @Dog\n@Cat").Faulty := .inl (by decide)
  have h2 : (parse "@Cat meets @Dog\n@Cat").faults = 2 := by decide
  have h1 : ((parse "@Cat meets @Dog\n@Cat").warnings {}).length = 1 := by decide
  have h := error_gates_agree "@Cat meets @Dog\n@Cat" {}
  obtain ⟨outcome, hrun, hcode, -⟩ :=
    h.checked ⟨true, none, 0, .check { file := "pets", quiet := true }⟩
      { file := "pets", quiet := true }
      (fun _ => .ok (.file (.ok ("\ufeff" ++ "@Cat meets @Dog\n@Cat")))) _ rfl rfl (.inl rfl)
  obtain ⟨first, hfirst, hb⟩ := h.blocked hf
  have hd : (analyze (parse "@Cat meets @Dog\n@Cat") {}).head?.map (·.display) =
      some "2:1: error[duplicate-definition]: concept `Cat` is already defined" := by
    rw [analyze_eq]
    decide +kernel
  rw [hfirst, Option.map_some] at hd
  have ht := h.tallied
  rw [h2] at hb
  simp only [h2, h1] at ht
  exact ⟨rfl, by decide, hf, h2, ⟨outcome, hrun, hcode hf⟩,
    ⟨first, hfirst, Option.some.inj hd, hb⟩, ht⟩

end ConceptMarkup
