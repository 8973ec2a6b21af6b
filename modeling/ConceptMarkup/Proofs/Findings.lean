import ConceptMarkup.Parse
import ConceptMarkup.Proofs.CollectedNames
import ConceptMarkup.Proofs.SuggestionOrder

/-! The findings of an analysis, read off the document alone. First come the concepts whose names
are taken, then the references to names without a concept, grouped by name, then the concepts whose
names nothing refers to. Options decide about the suggestions and about this last part. -/
namespace ConceptMarkup

namespace Document

/-- The references in the blocks of the concepts, in order. -/
def occurrences (d : Document) : List Reference :=
  d.concepts.flatMap fun c => c.prose.flatMap fun block => block.references

theorem occurrences_eq (d : Document) : d.occurrences = d.references := rfl

def definedNames (d : Document) : List String := (d.concepts.map (·.name)).eraseDups

def referencedNames (d : Document) : List String := (d.occurrences.map (·.name)).eraseDups

theorem definedNames_eq (d : Document) : d.definedNames = d.names.eraseDups := rfl

theorem mem_definedNames_iff {d : Document} {name : String} :
    name ∈ d.definedNames ↔ name ∈ d.names := List.mem_eraseDups

theorem mem_referencedNames_iff {d : Document} {name : String} :
    name ∈ d.referencedNames ↔ name ∈ d.references.map (·.name) := List.mem_eraseDups

def suggestionsFor (d : Document) (options : Options) (name : String) : List String :=
  if options.suggestions then suggest name d.definedNames options else []

/-- An error for each concept whose name occurs before it. -/
def duplicateErrors (d : Document) : List Diagnostic :=
  (Concept.redefinitions d.concepts).map fun (first, c) =>
    { severity := .error
      message := s!"concept `{c.name}` is already defined"
      range := c.range
      code := some .duplicateDefinition
      suggestions := []
      notes := [s!"first defined on line {first.nameRange.start.line}, " ++
        s!"redefined on line {c.nameRange.start.line}"] }

/-- The note that offers names, if there are any to offer. -/
def offering (names : List String) : List String :=
  if names = [] then []
  else ["did you mean " ++ ", ".intercalate (names.map fun name => "`" ++ name ++ "`") ++ "?"]

/-- An error for each reference to a name without a concept, names in the order of their first
references. -/
def undefinedErrors (d : Document) (options : Options) : List Diagnostic :=
  (d.referencedNames.filter (· ∉ d.definedNames)).flatMap fun name =>
    (Reference.to name d.occurrences).map fun r =>
      { severity := .error
        message := s!"undefined concept `{name}`"
        range := r.range
        code := some .undefinedReference
        suggestions := d.suggestionsFor options name
        notes := offering (d.suggestionsFor options name) }

/-- A warning for the first concept of each name without a reference, in definition order. -/
def unusedWarnings (d : Document) : List Diagnostic :=
  (d.definedNames.filter (· ∉ d.referencedNames)).filterMap fun name =>
    (Concept.firstNamed name d.concepts).map fun c =>
      { severity := .warning
        message := s!"concept `{name}` is never referenced"
        range := c.range
        code := some .unusedConcept
        suggestions := []
        notes := [] }

theorem flatMap_filter {α β : Type} (p : α → Bool) (f : α → List β) (l : List α) :
    (l.filter p).flatMap f = l.flatMap fun a => if p a then f a else [] := by
  induction l with
  | nil => rfl
  | cons a l ih =>
    rw [List.filter_cons, List.flatMap_cons, ← ih]
    split
    · rfl
    · rfl

/-- The note of an undefined reference offers what is suggested, if anything is. -/
theorem undefinedReference_eq (r : Reference) (names : List String) :
    Diagnostic.undefinedReference r names =
      { severity := .error
        message := s!"undefined concept `{r.name}`"
        range := r.range
        code := some .undefinedReference
        suggestions := names
        notes := offering names } := by
  cases names <;> rfl

private theorem suggestionsFor_spec (d : Document) (options : Options) {name : String}
    (hn : name ∉ d.definedNames) : (d.suggestionsFor options name).Nodup ∧
      ∀ s ∈ d.suggestionsFor options name, s ∈ d.definedNames ∧ s ≠ name := by
  rw [suggestionsFor]
  split
  · obtain ⟨l, hp, hs⟩ := suggest_subperm name d.definedNames options
    refine ⟨hp.nodup (hs.nodup (nodup_eraseDups d.names)), fun s hm => ?_⟩
    have hd : s ∈ d.definedNames := hs.subset (hp.mem_iff.mpr hm)
    exact ⟨hd, fun he => hn (he ▸ hd)⟩
  · exact ⟨List.nodup_nil, fun s hm => absurd hm List.not_mem_nil⟩

private theorem duplicates_eq (d : Document) :
    (Definitions.ofConcepts d.concepts).duplicates.toList = d.duplicateErrors :=
  (Definitions.collected_ofConcepts d.concepts).duplicates

private theorem undefinedReferences_eq (d : Document) (options : Options) :
    Analysis.undefinedReferences (Definitions.ofConcepts d.concepts).index
      (NameIndex.ofReferences d.references) options = d.undefinedErrors options := by
  have hd := Definitions.collected_ofConcepts d.concepts
  have hr := NameIndex.grouped_ofReferences d.references
  rw [Analysis.undefinedReferences, hr.toList, hd.keys, List.flatMap_map, undefinedErrors,
    flatMap_filter]
  apply List.flatMap_congr
  intro name _
  dsimp only
  simp only [mem_definedNames_iff]
  by_cases hn : name ∈ d.names
  · rw [if_pos (hd.contains_iff.mpr hn)]
    simp [hn]
  · rw [if_neg fun hc => hn (hd.contains_iff.mp hc)]
    simp only [hn, not_false_eq_true, decide_true, ↓reduceIte]
    apply List.map_congr_left
    intro r hr
    rw [undefinedReference_eq, (Reference.mem_to_iff.mp hr).2]
    rfl

private theorem unusedConcepts_eq (d : Document) :
    Analysis.unusedConcepts (Definitions.ofConcepts d.concepts).index
      (NameIndex.ofReferences d.references) = d.unusedWarnings := by
  have hd := Definitions.collected_ofConcepts d.concepts
  have hr := NameIndex.grouped_ofReferences d.references
  rw [Analysis.unusedConcepts, hd.toList, List.filterMap_filterMap, unusedWarnings,
    List.filterMap_filter]
  apply List.filterMap_congr
  intro name _
  cases hf : Concept.firstNamed name d.concepts with
  | none => simp
  | some c =>
    obtain ⟨-, rfl⟩ := Concept.mem_of_firstNamed hf
    simp only [Option.map_some, Option.bind_some, mem_referencedNames_iff]
    by_cases hn : c.name ∈ d.references.map (·.name)
    · rw [if_pos (hr.contains_iff.mpr hn)]
      simp [hn]
    · rw [if_neg fun hc => hn (hr.contains_iff.mp hc)]
      simp only [hn, not_false_eq_true, decide_true, ↓reduceIte]
      rfl

theorem mem_undefinedErrors_iff {d : Document} {options : Options} {e : Diagnostic} :
    e ∈ d.undefinedErrors options ↔ ∃ r ∈ d.references, r.name ∉ d.names ∧
      e = .undefinedReference r (d.suggestionsFor options r.name) := by
  rw [undefinedErrors, List.mem_flatMap]
  constructor
  · rintro ⟨name, hn, he⟩
    obtain ⟨r, hm, rfl⟩ := List.mem_map.mp he
    obtain ⟨hr, rfl⟩ := Reference.mem_to_iff.mp hm
    have hu : r.name ∉ d.definedNames := of_decide_eq_true (List.mem_filter.mp hn).2
    exact ⟨r, hr, mem_definedNames_iff.not.mp hu, (undefinedReference_eq r _).symm⟩
  · rintro ⟨r, hr, hn, rfl⟩
    have hu : r.name ∉ d.definedNames := mem_definedNames_iff.not.mpr hn
    refine ⟨r.name, List.mem_filter.mpr ⟨?_, decide_eq_true hu⟩, List.mem_map.mpr ⟨r, ?_, ?_⟩⟩
    · exact mem_referencedNames_iff.mpr (List.mem_map_of_mem hr)
    · exact Reference.mem_to_iff.mpr ⟨hr, rfl⟩
    · exact (undefinedReference_eq r _).symm

/-- The unused concepts of a document; of several concepts of a name, the first. -/
theorem mem_unusedWarnings_iff {d : Document} {e : Diagnostic} :
    e ∈ d.unusedWarnings ↔ ∃ c, Concept.firstNamed c.name d.concepts = some c ∧
      c.name ∉ d.references.map (·.name) ∧ e = .unusedConcept c := by
  rw [unusedWarnings, List.mem_filterMap]
  constructor
  · rintro ⟨name, hn, he⟩
    obtain ⟨c, hf, rfl⟩ := Option.map_eq_some_iff.mp he
    obtain ⟨-, rfl⟩ := Concept.mem_of_firstNamed hf
    have hu : c.name ∉ d.referencedNames := of_decide_eq_true (List.mem_filter.mp hn).2
    exact ⟨c, hf, mem_referencedNames_iff.not.mp hu, rfl⟩
  · rintro ⟨c, hf, hn, rfl⟩
    have hm : c.name ∈ d.definedNames :=
      mem_definedNames_iff.mpr (Concept.name_mem_of_firstNamed hf)
    have hu : c.name ∉ d.referencedNames := mem_referencedNames_iff.not.mpr hn
    refine ⟨c.name, List.mem_filter.mpr ⟨hm, decide_eq_true hu⟩, ?_⟩
    rw [hf]
    rfl

theorem code_of_mem_duplicateErrors {d : Document} {e : Diagnostic} (h : e ∈ d.duplicateErrors) :
    e.code = some .duplicateDefinition := by
  obtain ⟨_, _, rfl⟩ := List.mem_map.mp h
  rfl

theorem code_of_mem_undefinedErrors {d : Document} {options : Options} {e : Diagnostic}
    (h : e ∈ d.undefinedErrors options) : e.code = some .undefinedReference := by
  obtain ⟨r, -, -, rfl⟩ := mem_undefinedErrors_iff.mp h
  rw [undefinedReference_eq]

theorem code_of_mem_unusedWarnings {d : Document} {e : Diagnostic} (h : e ∈ d.unusedWarnings) :
    e.code = some .unusedConcept := by
  obtain ⟨c, -, -, rfl⟩ := mem_unusedWarnings_iff.mp h
  rfl

theorem severity_of_mem_errors {d : Document} {options : Options} {e : Diagnostic}
    (h : e ∈ d.duplicateErrors ++ d.undefinedErrors options) : e.severity = .error := by
  rcases List.mem_append.mp h with h | h
  · obtain ⟨_, _, rfl⟩ := List.mem_map.mp h
    rfl
  · obtain ⟨r, -, -, rfl⟩ := mem_undefinedErrors_iff.mp h
    rw [undefinedReference_eq]

theorem severity_of_mem_unusedWarnings {d : Document} {e : Diagnostic}
    (h : e ∈ d.unusedWarnings) : e.severity = .warning := by
  obtain ⟨c, -, -, rfl⟩ := mem_unusedWarnings_iff.mp h
  rfl

private theorem not_error_of_mem {d : Document} {options : Options} {e : Diagnostic}
    (h : e ∈ if options.unusedConcepts then d.unusedWarnings else []) : e.severity ≠ .error := by
  split at h
  · rw [severity_of_mem_unusedWarnings h]
    exact Severity.noConfusion
  · cases h

theorem analyze_eq (d : Document) (options : Options) :
    analyze d options = d.duplicateErrors ++ (d.undefinedErrors options ++
      if options.unusedConcepts then d.unusedWarnings else []) := by
  rw [← duplicates_eq, ← undefinedReferences_eq, ← unusedConcepts_eq]
  rfl

theorem mem_analyze_iff {d : Document} {options : Options} {e : Diagnostic} :
    e ∈ analyze d options ↔ e ∈ d.duplicateErrors ∨ e ∈ d.undefinedErrors options ∨
      options.unusedConcepts ∧ e ∈ d.unusedWarnings := by
  rw [analyze_eq, List.mem_append, List.mem_append]
  by_cases h : options.unusedConcepts
  · simp [h]
  · simp [h]

theorem mem_undefinedErrors_of_code {d : Document} {options : Options} {e : Diagnostic}
    (h : e ∈ analyze d options) (hc : e.code = some .undefinedReference) :
    e ∈ d.undefinedErrors options := by
  rcases mem_analyze_iff.mp h with h | h | ⟨-, h⟩
  · rw [code_of_mem_duplicateErrors h] at hc
    cases hc
  · exact h
  · rw [code_of_mem_unusedWarnings h] at hc
    cases hc

theorem mem_unusedWarnings_of_code {d : Document} {options : Options} {e : Diagnostic}
    (h : e ∈ analyze d options) (hc : e.code = some .unusedConcept) : e ∈ d.unusedWarnings := by
  rcases mem_analyze_iff.mp h with h | h | ⟨-, h⟩
  · rw [code_of_mem_duplicateErrors h] at hc
    cases hc
  · rw [code_of_mem_undefinedErrors h] at hc
    cases hc
  · exact h

/-- The findings of a document are its duplicate definitions, its undefined references and, where
wanted, its unused definitions, in this order and no others. A duplicate names the first concept of
its name, what is suggested for an undefined name are names of concepts, each once, and errors stand
before warnings. -/
theorem findings_of_document (d : Document) (options : Options) :
    analyze d options = d.duplicateErrors ++ (d.undefinedErrors options ++
        if options.unusedConcepts then d.unusedWarnings else []) ∧
      (∀ first c, (first, c) ∈ Concept.redefinitions d.concepts →
        Concept.firstNamed c.name d.concepts = some first) ∧
      (∀ name ∉ d.definedNames, (d.suggestionsFor options name).Nodup ∧
        ∀ s ∈ d.suggestionsFor options name, s ∈ d.definedNames ∧ s ≠ name) ∧
      (analyze d options).Pairwise fun first second =>
        second.severity = .error → first.severity = .error := by
  refine ⟨d.analyze_eq options, fun _ _ h => Concept.firstNamed_of_mem_redefinitions h,
    fun name hn => d.suggestionsFor_spec options hn, ?_⟩
  rw [analyze_eq, ← List.append_assoc]
  apply List.pairwise_append.mpr
  refine ⟨?_, ?_, ?_⟩
  · apply List.pairwise_of_forall_mem_list
    intro first hf second _ _
    exact severity_of_mem_errors hf
  · apply List.pairwise_of_forall_mem_list
    intro first _ second hs he
    exact absurd he (not_error_of_mem hs)
  · intro first hf second _ _
    exact severity_of_mem_errors hf

/-- Findings stand in the order of their kinds, whatever their places. -/
example : let d := parse "@Cat meets @Cow\n@Cat\n@Cod"
    (d.duplicateErrors.map (·.notes),
      (d.undefinedErrors {}).map fun e => (e.message, e.notes),
      d.unusedWarnings.map (·.message)) =
    ([["first defined on line 1, redefined on line 2"]],
      [("undefined concept `Cow`", ["did you mean `Cod`?"])],
      ["concept `Cat` is never referenced", "concept `Cod` is never referenced"]) := by
  decide +kernel

end Document

end ConceptMarkup
