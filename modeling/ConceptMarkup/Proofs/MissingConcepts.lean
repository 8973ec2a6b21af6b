import ConceptMarkup.Proofs.OptionChoices
import ConceptMarkup.Proofs.SectionJoin

/-! A missing concept defined on a line of its own at the end. The new concept has a name that
nothing has defined and something refers to, and no prose. So it is neither a duplicate nor unused,
and the errors about its name go away. All other findings stay, with perhaps another name to
suggest. -/
namespace ConceptMarkup
open Text Diagnostic
open List (Forall₂)

/-- An error about a reference to a name that is not defined. -/
def Diagnostic.Misses (e : Diagnostic) (name : String) : Prop :=
  e.code = some .undefinedReference ∧ e.message = s!"undefined concept `{name}`"

instance (e : Diagnostic) (name : String) : Decidable (e.Misses name) :=
  inferInstanceAs (Decidable (_ ∧ _))

private theorem misses_undefinedReference_iff {r : Reference} {names : List String}
    {name : String} : (undefinedReference r names).Misses name ↔ r.name = name := by
  rw [Misses, Document.undefinedReference_eq, String.append_left_inj, String.append_right_inj]
  exact and_iff_right rfl

namespace Document

private theorem exists_misses_iff {d : Document} {options : Options} {name : String} :
    (∃ e ∈ analyze d options, e.Misses name) ↔
      name ∉ d.names ∧ name ∈ d.references.map (·.name) := by
  constructor
  · rintro ⟨e, he, hm⟩
    obtain ⟨r, hr, hn, rfl⟩ := mem_undefinedErrors_iff.mp (mem_undefinedErrors_of_code he hm.1)
    obtain rfl := misses_undefinedReference_iff.mp hm
    exact ⟨hn, List.mem_map_of_mem hr⟩
  · rintro ⟨hn, hm⟩
    obtain ⟨r, hr, rfl⟩ := List.mem_map.mp hm
    exact ⟨_, mem_analyze_iff.mpr (.inr (.inl (mem_undefinedErrors_iff.mpr ⟨r, hr, hn, rfl⟩))),
      misses_undefinedReference_iff.mpr rfl⟩

private theorem filter_not_misses (name : String) {ds : List Diagnostic} {code : Code}
    (h : ∀ e ∈ ds, e.code = some code) (hc : code ≠ .undefinedReference) :
    ds.filter (¬ ·.Misses name) = ds := by
  rw [List.filter_eq_self]
  intro e he
  refine decide_eq_true fun hm => hc ?_
  exact Option.some.inj ((h e he).symm.trans hm.1)

private theorem filter_misses_to (d : Document) (options : Options) (name n : String) :
    ((Reference.to n d.references).map fun r =>
      undefinedReference r (d.suggestionsFor options r.name)).filter (¬ ·.Misses name) =
      if n = name then [] else (Reference.to n d.references).map fun r =>
        undefinedReference r (d.suggestionsFor options r.name) := by
  have hm : ∀ r ∈ Reference.to n d.references,
      (undefinedReference r (d.suggestionsFor options r.name)).Misses name ↔ n = name := by
    intro r hr
    rw [misses_undefinedReference_iff, (Reference.mem_to_iff.mp hr).2]
  split
  · next he =>
    rw [List.filter_eq_nil_iff]
    intro e h
    obtain ⟨r, hr, rfl⟩ := List.mem_map.mp h
    simpa using (hm r hr).mpr he
  · next he =>
    rw [List.filter_eq_self]
    intro e h
    obtain ⟨r, hr, rfl⟩ := List.mem_map.mp h
    exact decide_eq_true fun h => he ((hm r hr).mp h)

private theorem filter_undefinedErrors (d : Document) (options : Options) (name : String) :
    (d.undefinedErrors options).filter (¬ ·.Misses name) =
      (d.referencedNames.filter (· ∉ d.names ++ [name])).flatMap fun n =>
        (Reference.to n d.references).map fun r =>
          .undefinedReference r (d.suggestionsFor options r.name) := by
  rw [undefinedErrors_eq, List.filter_flatMap, flatMap_filter, flatMap_filter]
  apply List.flatMap_congr
  intro n _
  rw [filter_misses_to]
  by_cases hn : n ∈ d.names
  · simp [hn]
  · by_cases he : n = name
    · simp [he]
    · simp [hn, he]

section Defined
variable {d d' : Document} {c : Concept} (options : Options)

/-- One more concept, whose name nothing defines and something refers to, without prose. -/
structure Defines (d d' : Document) (c : Concept) : Prop where
  concepts : d'.concepts = d.concepts ++ [c]
  bare : c.references = []
  missing : c.name ∉ d.names
  wanted : c.name ∈ d.references.map (·.name)

private theorem Defines.references (h : Defines d d' c) : d'.references = d.references := by
  rw [Document.references, h.concepts, List.flatMap_append, List.flatMap_singleton, h.bare,
    List.append_nil, Document.references]

private theorem Defines.names (h : Defines d d' c) : d'.names = d.names ++ [c.name] := by
  rw [Document.names, h.concepts, List.map_append, List.map_singleton, Document.names]

private theorem Defines.duplicateErrors (h : Defines d d' c) :
    d'.duplicateErrors = d.duplicateErrors := by
  have hf : Concept.firstNamed c.name d.concepts = none :=
    Concept.firstNamed_eq_none_iff.mpr h.missing
  rw [Document.duplicateErrors, h.concepts, Concept.redefinitions_concat, hf, Option.map_none,
    Option.toList_none, List.append_nil, Document.duplicateErrors]

private theorem Defines.unusedWarnings (h : Defines d d' c) :
    d'.unusedWarnings = d.unusedWarnings := by
  have hk : d'.definedNames.filter (· ∉ d'.references.map (·.name)) =
      d.definedNames.filter (· ∉ d.references.map (·.name)) := by
    rw [definedNames_eq, h.names, eraseDups_concat_of_not_mem h.missing, h.references,
      List.filter_append, List.filter_cons_of_neg (by simpa using h.wanted), List.filter_nil,
      List.append_nil, definedNames_eq]
  rw [unusedWarnings_eq, unusedWarnings_eq, hk]
  apply List.filterMap_congr
  intro name hn
  have hd : name ∈ d.concepts.map (·.name) := List.mem_eraseDups.mp (List.mem_filter.mp hn).1
  rw [h.concepts, Concept.firstNamed_concat_of_mem c hd]

private theorem Defines.undefinedErrors (h : Defines d d' c) :
    Forall₂ SameFinding (d'.undefinedErrors options)
      ((d.undefinedErrors options).filter (¬ ·.Misses c.name)) := by
  rw [filter_undefinedErrors, undefinedErrors_eq, referencedNames, occurrences_eq, h.references,
    h.names]
  refine List.rel_flatMap (R := Eq) (List.forall₂_refl _) ?_
  rintro n _ rfl
  refine List.rel_map (R := Eq) ?_ (List.forall₂_refl _)
  rintro r _ rfl
  exact sameFinding_undefinedReference r _ _

private theorem Defines.findings (h : Defines d d' c) :
    Forall₂ SameFinding (analyze d' options)
      ((analyze d options).filter (¬ ·.Misses c.name)) := by
  have hd : d.duplicateErrors.filter (¬ ·.Misses c.name) = d.duplicateErrors :=
    filter_not_misses c.name (fun _ => code_of_mem_duplicateErrors) (by decide)
  have hu : d.unusedWarnings.filter (¬ ·.Misses c.name) = d.unusedWarnings :=
    filter_not_misses c.name (fun _ => code_of_mem_unusedWarnings) (by decide)
  have hw : (if options.unusedConcepts then d.unusedWarnings else []).filter
      (¬ ·.Misses c.name) = if options.unusedConcepts then d.unusedWarnings else [] := by
    split
    · exact hu
    · rfl
  rw [analyze_eq, analyze_eq, List.filter_append, List.filter_append, hd, hw, h.duplicateErrors,
    h.unusedWarnings]
  have hr : ∀ es : List Diagnostic, Forall₂ SameFinding es es := fun es =>
    List.forall₂_same.mpr fun e _ => .refl e
  exact List.rel_append (hr _) (List.rel_append (h.undefinedErrors options) (hr _))

end Defined

private theorem mentionAt?_of_mem_references {source : String} {r : Reference}
    (h : r ∈ (parse source).references) :
    mentionAt? ('@' :: r.name.toList) = some r.name.toList ∧ '\n' ∉ '@' :: r.name.toList := by
  obtain ⟨before, rest, name, -, hm, rfl⟩ :=
    Reference.mem_allIn_iff.mp (mem_allIn_of_mem_references h)
  obtain ⟨more, rfl, hn, hs⟩ := mention_split hm
  rw [← List.cons_append, mentionAt?_append (List.cons_ne_nil _ _) hs] at hm
  have he : (Reference.ofMention (Position.start.after before) name).name.toList = name :=
    String.toList_ofList
  rw [he]
  refine ⟨hm, fun hl => ?_⟩
  rcases List.mem_cons.mp hl with hl | hl
  · exact absurd hl (by decide)
  · exact absurd (hn _ hl) (by decide)

private theorem concepts_marker {name : String}
    (hm : mentionAt? ('@' :: name.toList) = some name.toList)
    (hl : '\n' ∉ '@' :: name.toList) : preamble ("@" ++ name).toList = [] ∧
      (parse ("@" ++ name)).concepts = [Concept.ofBody .start name.toList []] := by
  have ht : ("@" ++ name).toList = '@' :: name.toList := by rw [String.toList_append]; rfl
  have hs := sections_line_of_some hl hm
  have hp : preamble ("@" ++ name).toList = [] := by rw [ht, preamble, hs]
  have hk : marked ("@" ++ name).toList = ['@' :: name.toList] := by rw [ht, marked, hs]
  have he : Concept.ofText .start ('@' :: name.toList) = .ofBody .start name.toList [] := by
    simp [Concept.ofText, hm]
  refine ⟨hp, ?_⟩
  rw [parse_concepts, hp, hk, Position.after_nil, Concept.ofTexts, Concept.ofTexts, he]

private theorem defines_append_marker {source name : String} (hn : name ∉ (parse source).names)
    (hm : name ∈ (parse source).references.map (·.name)) :
    ∃ c, c.name = name ∧
      Defines (parse source) (parse (source ++ "\n" ++ ("@" ++ name))) c := by
  obtain ⟨r, hr, rfl⟩ := List.mem_map.mp hm
  obtain ⟨ha, hl⟩ := mentionAt?_of_mem_references hr
  obtain ⟨hp, hc⟩ := concepts_marker ha hl
  have hname : String.ofList r.name.toList = r.name := String.ofList_toList
  refine ⟨(Concept.ofBody .start r.name.toList []).shift (source.toList.count '\n' + 1)
    (byteLength source.toList + 1), hname, ?_, rfl, ?_, ?_⟩
  · rw [concepts_append_lineFeed source _ hp, hc]
    rfl
  · exact fun hd => hn (hname ▸ hd)
  · exact List.mem_map.mpr ⟨r, hr, hname.symm⟩

/-- Where a name is missed, a marker for it at the end, on a line of its own, repairs exactly the
errors about it: all other findings stay as they are, in their order, and none is new. -/
theorem marker_repairs_missing {source name : String} (options : Options)
    (h : ∃ e ∈ analyze (parse source) options, e.Misses name) :
    Forall₂ SameFinding (analyze (parse (source ++ "\n" ++ ("@" ++ name))) options)
      ((analyze (parse source) options).filter (¬ ·.Misses name)) := by
  obtain ⟨hn, hm⟩ := exists_misses_iff.mp h
  obtain ⟨c, rfl, hd⟩ := defines_append_marker hn hm
  exact hd.findings options

/-- Both references to Dog are repaired. The error about Dig stays, with Dog as a new name to
suggest for it. -/
theorem marker_repairs_missing_twice :
    let source := "@Cat meets @Dog\n@Cow and @Dig see @Dog"
    (∃ e ∈ analyze (parse source) {}, e.Misses "Dog") ∧
      Forall₂ SameFinding (analyze (parse (source ++ "\n" ++ ("@" ++ "Dog"))) {})
        ((analyze (parse source) {}).filter (¬ ·.Misses "Dog")) ∧
      ((analyze (parse source) {}).filter (¬ ·.Misses "Dog")).map (·.message) =
        ["undefined concept `Dig`", "concept `Cat` is never referenced",
          "concept `Cow` is never referenced"] := by
  have h : ∃ e ∈ analyze (parse "@Cat meets @Dog\n@Cow and @Dig see @Dog") {},
      e.Misses "Dog" := exists_misses_iff.mpr (by decide)
  refine ⟨h, marker_repairs_missing {} h, ?_⟩
  rw [analyze_eq]
  decide +kernel

end Document

end ConceptMarkup
