import Mathlib.Data.List.Forall2
import ConceptMarkup.Proofs.ErrorGates
import ConceptMarkup.Proofs.PairedFindings
import ConceptMarkup.Proofs.SuggestionOrder

/-! What the options of an analysis decide. They explain the errors of a document and make none:
two analyses collect the same names and find the same errors in the same order, and a choice about
unused concepts only adds or drops the warnings at the end. -/
namespace ConceptMarkup

open List (Forall₂)

/-- Findings that differ in nothing but the suggestions and the notes. -/
structure Diagnostic.SameFinding (e e' : Diagnostic) : Prop where
  severity : e.severity = e'.severity
  message : e.message = e'.message
  range : e.range = e'.range
  code : e.code = e'.code

namespace Diagnostic

theorem SameFinding.refl (e : Diagnostic) : SameFinding e e := ⟨rfl, rfl, rfl, rfl⟩

private theorem SameFinding.display {e e' : Diagnostic} (h : SameFinding e e') :
    e.display = e'.display := by
  rw [Diagnostic.display, Diagnostic.display, h.severity, h.message, h.range, h.code]

theorem sameFinding_undefinedReference (r : Reference) (names names' : List String) :
    SameFinding (undefinedReference r names) (undefinedReference r names') := by
  rw [Document.undefinedReference_eq, Document.undefinedReference_eq]
  exact ⟨rfl, rfl, rfl, rfl⟩

end Diagnostic

open Diagnostic

private theorem checkReady_congr {ds ds' : List Diagnostic}
    (h : Forall₂ SameFinding (ds.filter (·.isError)) (ds'.filter (·.isError))) :
    checkReady ds = checkReady ds' := by
  rw [checkReady, checkReady]
  generalize ds.filter (·.isError) = errors, ds'.filter (·.isError) = errors' at h ⊢
  cases h with
  | nil => rfl
  | cons hfirst hrest =>
    dsimp only
    rw [hfirst.display, hrest.length_eq]

namespace Document

variable (d : Document) (o o' : Options)

private theorem errors_forall₂ {R : Diagnostic → Diagnostic → Prop} (hR : ∀ e, R e e)
    (hu : ∀ r, R (.undefinedReference r (d.suggestionsFor o r.name))
      (.undefinedReference r (d.suggestionsFor o' r.name))) :
    Forall₂ R (d.errors o) (d.errors o') := by
  have hd : Forall₂ R d.duplicateErrors d.duplicateErrors :=
    List.forall₂_same.mpr fun e _ => hR e
  refine List.rel_append hd (undefinedErrors_forall₂ (S := Eq) rfl ?_ (List.forall₂_refl _) ?_)
  · rintro r _ rfl
    rfl
  · rintro r _ rfl
    exact hu r

/-- What the analyses of a document under two options have in common. -/
structure SameFaults : Prop where
  definitions : (Analysis.ofDocument d o).definitions = (Analysis.ofDocument d o').definitions
  references : (Analysis.ofDocument d o).references = (Analysis.ofDocument d o').references
  errors : Forall₂ SameFinding
    ((analyze d o).filter (·.isError)) ((analyze d o').filter (·.isError))
  /-- The warnings are those of the document, all of them or none. -/
  unused : ∃ warnings : List Diagnostic,
    (∀ e ∈ warnings, e.severity = .warning ∧ e.code = some .unusedConcept) ∧
    ∀ options : Options, analyze d options =
      (analyze d options).filter (·.isError) ++ if options.unusedConcepts then warnings else []
  ready : checkReady (analyze d o) = checkReady (analyze d o')
  /-- Wider bounds offer what tighter ones do, and then more. -/
  suggestions : o.suggestions → o'.suggestions → o.maxSuggestions ≤ o'.maxSuggestions →
    o.maxSuggestionDistance ≤ o'.maxSuggestionDistance →
    Forall₂ (fun e e' => e.suggestions <+: e'.suggestions)
      ((analyze d o).filter (·.isError)) ((analyze d o').filter (·.isError))

/-- Options never change what is wrong with a document, only how it is explained. -/
theorem sameFaults_of_options : SameFaults d o o' := by
  have he : Forall₂ SameFinding
      ((analyze d o).filter (·.isError)) ((analyze d o').filter (·.isError)) := by
    rw [(graded_analyze d o).filter_isError, (graded_analyze d o').filter_isError]
    exact d.errors_forall₂ o o' .refl fun r => sameFinding_undefinedReference r _ _
  refine ⟨rfl, rfl, he, ⟨d.unusedWarnings, ?_, ?_⟩, checkReady_congr he, ?_⟩
  · intro e hu
    exact ⟨severity_of_mem_unusedWarnings hu, code_of_mem_unusedWarnings hu⟩
  · intro options
    have hg := graded_analyze d options
    rw [hg.filter_isError]
    exact hg.whole
  · intro hs hs' hm hd
    rw [(graded_analyze d o).filter_isError, (graded_analyze d o').filter_isError]
    apply d.errors_forall₂ o o'
    · intro e
      exact List.prefix_rfl
    · intro r
      rw [undefinedReference_eq, undefinedReference_eq, suggestionsFor, suggestionsFor, if_pos hs,
        if_pos hs']
      exact suggest_isPrefix hm hd r.name d.definedNames

/-- A limit of one suggestion cuts the offer short where a limit of three does not, and the warning
about a name in no use goes with the choice to report it. -/
theorem sameFaults_with_fewer_suggestions :
    let source := "@Cats meet @Catt\n@Cat"
    let few : Options := { unusedConcepts := false, maxSuggestions := 1 }
    (((analyze (parse source) few).filter (·.isError)).map (·.suggestions) = [["Cats"]] ∧
      ((analyze (parse source) {}).filter (·.isError)).map (·.suggestions) = [["Cats", "Cat"]]) ∧
    Forall₂ (fun e e' => e.suggestions <+: e'.suggestions)
      ((analyze (parse source) few).filter (·.isError))
      ((analyze (parse source) {}).filter (·.isError)) := by
  have h := sameFaults_of_options (parse "@Cats meet @Catt\n@Cat")
    { unusedConcepts := false, maxSuggestions := 1 } {}
  have hs : ∀ o, ((analyze (parse "@Cats meet @Catt\n@Cat") o).filter (·.isError)).map
      (·.suggestions) = [(parse "@Cats meet @Catt\n@Cat").suggestionsFor o "Catt"] := by
    intro o
    rw [(graded_analyze _ o).filter_isError]
    rfl
  refine ⟨⟨?_, ?_⟩, h.suggestions rfl rfl (by decide) (by decide)⟩
  · rw [hs, suggestionsFor, suggest, List.mergeSort_of_pairwise (by decide +kernel)]
    decide +kernel
  · rw [hs, suggestionsFor, suggest, List.mergeSort_of_pairwise (by decide +kernel)]
    decide +kernel

end Document

end ConceptMarkup
