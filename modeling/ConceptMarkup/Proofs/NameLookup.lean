import Std.Data.String.ToNat
import ConceptMarkup.Editor.Outline
import ConceptMarkup.Proofs.Findings
import ConceptMarkup.Proofs.SymbolPlaces

/-! Lookup by name, two ways. An analysis looks names up in its indices; an editor scans the
document for each request. Both find the first concept of a name and all references to it, so that
what the one reports the other shows. -/
namespace ConceptMarkup

namespace Document

private theorem firstOfEachName_concat (seen : List String) (concepts : List Concept)
    (c : Concept) :
    firstOfEachName seen (concepts ++ [c]) = firstOfEachName seen concepts ++
      if c.name ∈ seen ∨ c.name ∈ concepts.map (·.name) then [] else [c] := by
  induction concepts generalizing seen with
  | nil =>
    rw [List.nil_append, firstOfEachName]
    simp [firstOfEachName]
  | cons first concepts ih =>
    rw [List.cons_append, firstOfEachName, firstOfEachName]
    split
    · next hs =>
      rw [ih]
      congr 2
      by_cases he : c.name = first.name
      · simp [he, hs]
      · simp [he]
    · next hs =>
      rw [ih, List.cons_append]
      congr 3
      rw [List.mem_cons, List.map_cons, List.mem_cons, or_comm (a := c.name = first.name), or_assoc]

private theorem firstOfEachName_concat_nil (concepts : List Concept) (c : Concept) :
    firstOfEachName [] (concepts ++ [c]) = firstOfEachName [] concepts ++
      if c.name ∈ concepts.map (·.name) then [] else [c] := by
  rw [firstOfEachName_concat]
  simp

private theorem values_ofConcepts (concepts : List Concept) :
    (Definitions.ofConcepts concepts).index.values = firstOfEachName [] concepts := by
  induction concepts using List.reverseRecOn with
  | nil => rfl
  | append_singleton concepts c ih =>
    have h := Definitions.collected_ofConcepts concepts
    rw [Definitions.ofConcepts_concat, Definitions.add, h.get?, firstOfEachName_concat_nil]
    cases hf : Concept.firstNamed c.name concepts with
    | some first =>
      rw [if_pos (Concept.name_mem_of_firstNamed hf), List.append_nil]
      exact ih
    | none =>
      have hn := Concept.firstNamed_eq_none_iff.mp hf
      rw [if_neg hn, ← ih]
      exact NameIndex.values_insert h.wellFormed c (h.mem_keys_iff.not.mpr hn)

private theorem names_firstOfEachName (concepts : List Concept) :
    (firstOfEachName [] concepts).map (·.name) = (concepts.map (·.name)).eraseDups := by
  have h := Definitions.collected_ofConcepts concepts
  rw [← values_ofConcepts, ← h.keys, NameIndex.values, NameIndex.keys, h.toList]
  rw [List.map_map, List.map_filterMap, List.map_filterMap]
  apply List.filterMap_congr
  intro name _
  cases hf : Concept.firstNamed name concepts with
  | none => rfl
  | some c =>
    obtain ⟨-, rfl⟩ := Concept.mem_of_firstNamed hf
    rfl

private theorem firstOfEachName_filter (p : String → Bool) (concepts : List Concept) :
    firstOfEachName [] (concepts.filter fun c => p c.name) =
      (firstOfEachName [] concepts).filter fun c => p c.name := by
  induction concepts using List.reverseRecOn with
  | nil => rfl
  | append_singleton concepts c ih =>
    rw [List.filter_append, firstOfEachName_concat_nil, List.filter_append, ← ih]
    cases hp : p c.name with
    | false =>
      have hc : [c].filter (fun c => p c.name) = [] := List.filter_cons_of_neg (by simp [hp])
      rw [hc, List.append_nil]
      split
      · rw [List.filter_nil, List.append_nil]
      · rw [hc, List.append_nil]
    | true =>
      have hm : c.name ∈ (concepts.filter fun c => p c.name).map (·.name) ↔
          c.name ∈ concepts.map (·.name) := by
        simp only [List.mem_map, List.mem_filter]
        constructor
        · rintro ⟨c', ⟨hc, -⟩, he⟩
          exact ⟨c', hc, he⟩
        · rintro ⟨c', hc, he⟩
          exact ⟨c', ⟨hc, he ▸ hp⟩, he⟩
      have hc : [c].filter (fun c => p c.name) = [c] := List.filter_cons_of_pos hp
      rw [hc, firstOfEachName_concat_nil]
      simp only [hm]
      split
      · rw [List.filter_nil]
      · rw [hc]

end Document

namespace Analysis

private theorem definition?_ofDocument (d : Document) (options : Options) (name : String) :
    (ofDocument d options).definition? name = d.definition? name :=
  (Definitions.collected_ofConcepts d.concepts).get? name

private theorem referencesTo_ofDocument (d : Document) (options : Options) (name : String) :
    (ofDocument d options).referencesTo name = Reference.to name d.references := by
  have h := NameIndex.grouped_ofReferences d.references
  change ((NameIndex.ofReferences d.references).get? name).elim [] Array.toList = _
  by_cases hk : name ∈ (NameIndex.ofReferences d.references).keys
  · rw [h.get? name hk]
    rfl
  · rw [(NameIndex.get?_eq_none_iff h.wellFormed).mpr hk,
      Reference.to_eq_nil_iff.mpr (h.mem_keys_iff.not.mp hk)]
    rfl

end Analysis

namespace Document

private theorem exists_undefinedReference_iff {d : Document} {options : Options} {range : Range} :
    (∃ e ∈ analyze d options, e.code = some .undefinedReference ∧ e.range = range) ↔
      ∃ r ∈ d.references, r.name ∉ d.names ∧ r.range = range := by
  constructor
  · rintro ⟨e, he, hc, rfl⟩
    obtain ⟨r, hr, hn, rfl⟩ := mem_undefinedErrors_iff.mp (mem_undefinedErrors_of_code he hc)
    refine ⟨r, hr, hn, ?_⟩
    rw [undefinedReference_eq]
  · rintro ⟨r, hr, hn, rfl⟩
    have he : .undefinedReference r (d.suggestionsFor options r.name) ∈ d.undefinedErrors options :=
      mem_undefinedErrors_iff.mpr ⟨r, hr, hn, rfl⟩
    refine ⟨_, mem_analyze_iff.mpr (.inr (.inl he)), code_of_mem_undefinedErrors he, ?_⟩
    rw [undefinedReference_eq]

private theorem exists_unusedConcept_iff {d : Document} {options : Options} {name : String}
    (ho : options.unusedConcepts) :
    (∃ e ∈ analyze d options, e.code = some .unusedConcept ∧
        e.message = s!"concept `{name}` is never referenced") ↔
      name ∈ d.names ∧ name ∉ d.references.map (·.name) := by
  constructor
  · rintro ⟨e, he, hc, hm⟩
    obtain ⟨c, hf, hn, rfl⟩ := mem_unusedWarnings_iff.mp (mem_unusedWarnings_of_code he hc)
    obtain rfl : c.name = name := by
      rw [Diagnostic.unusedConcept, String.append_left_inj, String.append_right_inj] at hm
      exact hm
    exact ⟨Concept.name_mem_of_firstNamed hf, hn⟩
  · rintro ⟨hd, hn⟩
    obtain ⟨c, hc⟩ := Option.ne_none_iff_exists'.mp fun hf =>
      Concept.firstNamed_eq_none_iff.mp hf hd
    obtain ⟨-, rfl⟩ := Concept.mem_of_firstNamed hc
    have he := mem_unusedWarnings_iff.mpr ⟨c, hc, hn, rfl⟩
    exact ⟨_, mem_analyze_iff.mpr (.inr (.inr ⟨ho, he⟩)), rfl, rfl⟩

/-- The first line of a text, without the carriage return before a line feed that ends it. -/
def firstLine (text : List Char) : Option (List Char) :=
  let line := text.takeWhile (· ≠ '\n')
  if text = [] then none
  else if line = text ∨ line.getLast? ≠ some '\r' then some line
  else some line.dropLast

private theorem head?_lines (text : List Char) : (Text.lines text).head? = firstLine text := by
  by_cases h : '\n' ∈ text
  · obtain ⟨line, rest, rfl, hn⟩ := List.eq_append_cons_of_mem h
    have hw : (line ++ '\n' :: rest).takeWhile (· ≠ '\n') = line := by
      rw [List.takeWhile_append_of_pos fun c hc => decide_eq_true (ne_of_mem_of_not_mem hc hn),
        List.takeWhile_cons_of_neg (by simp), List.append_nil]
    obtain ⟨next, others, hs⟩ := List.exists_cons_of_ne_nil (List.splitOn_ne_nil '\n' rest)
    rw [Text.lines, List.splitOn_append_cons_self, List.splitOn_eq_singleton hn, hs, firstLine, hw,
      List.singleton_append, Text.lines.ended, List.head?_cons, Text.dropReturn]
    · by_cases hr : line.getLast? = some '\r'
      · simp [hr]
      · simp [hr]
    · exact fun he => List.cons_ne_nil _ _ he
  · have hw : text.takeWhile (· ≠ '\n') = text :=
      List.takeWhile_eq_self_iff.mpr fun c hc => decide_eq_true (ne_of_mem_of_not_mem hc h)
    rw [Text.lines, List.splitOn_eq_singleton h, Text.lines.ended, firstLine, hw]
    cases text with
    | nil => rfl
    | cons c cs => simp

/-- The names that an analysis finds to begin in a way, each with the first line of what its first
concept says. -/
def completing (a : Analysis) (typed : String) : List Completion :=
  (a.definitions.values.filter fun c => typed.toList <+: c.name.toList).map fun c =>
    ⟨c.name, (firstLine ("\n\n".intercalate (c.prose.map (·.text))).toList).map String.ofList⟩

/-- What an editor finds in a document by scanning it, and an analysis of it by its indices. -/
structure ScansAgree (d : Document) (a : Analysis) : Prop where
  defined : ∀ name, a.definition? name = d.concepts.find? (·.name = name)
  cited : ∀ name, a.referencesTo name = d.occurrences.filter (·.name = name)
  definition : ∀ name, d.definition? name = a.definition? name
  uses : ∀ name, d.usesOf name false = (a.referencesTo name).map (·.range)
  usesWithMarkers : ∀ name, d.usesOf name true =
    (d.concepts.filter (·.name = name)).map (·.nameRange) ++ (a.referencesTo name).map (·.range)
  outline : d.outline = d.concepts.map fun c =>
    { name := c.name
      detail := s!"{(a.referencesTo c.name).length} reference(s)"
      range := c.range
      selection := c.nameRange }
  completions : ∀ typed, typed.toList.head? ≠ some '@' → d.completions typed = completing a typed
  /-- An at sign may stand before a name, and only one. -/
  completionsAt : ∀ typed, d.completions ("@" ++ typed) = completing a typed
  completionsOnce : ∀ typed, ((d.completions typed).map (·.label)).Nodup

private theorem completions_eq_filter (d : Document) (typed : String) : d.completions typed =
    ((firstOfEachName [] d.concepts).filter fun c =>
        (dropAt typed.toList).isPrefixOf c.name.toList).map
      fun c => ⟨c.name, (Text.lines c.text.toList).head?.map String.ofList⟩ := by
  rw [completions, firstOfEachName_filter fun name => (dropAt typed.toList).isPrefixOf name.toList]

private theorem completions_eq (d : Document) (options : Options) {typed start : String}
    (h : dropAt typed.toList = start.toList) :
    d.completions typed = completing (Analysis.ofDocument d options) start := by
  have hp : ∀ c : Concept, start.toList.isPrefixOf c.name.toList =
      decide (start.toList <+: c.name.toList) := by
    intro c
    rw [Bool.eq_iff_iff, List.isPrefixOf_iff_prefix, decide_eq_true_iff]
  rw [completions_eq_filter, h, ← values_ofConcepts]
  simp only [hp, head?_lines]
  rfl

private theorem nodup_labels_completions (d : Document) (typed : String) :
    ((d.completions typed).map (·.label)).Nodup := by
  have hn := nodup_eraseDups (d.concepts.map (·.name))
  rw [← names_firstOfEachName] at hn
  rw [completions_eq_filter, List.map_map]
  exact hn.sublist (List.filter_sublist.map _)

private theorem scansAgree_ofDocument (d : Document) (options : Options) :
    d.ScansAgree (Analysis.ofDocument d options) := by
  have hr := Analysis.referencesTo_ofDocument d options
  constructor
  · exact Analysis.definition?_ofDocument d options
  · exact hr
  · intro name
    exact (Analysis.definition?_ofDocument d options name).symm
  · intro name
    rw [hr]
    rfl
  · intro name
    rw [hr]
    rfl
  · simp only [hr, outline, referenceCount, List.countP_eq_length_filter, Reference.to]
  · intro typed ht
    apply completions_eq
    rw [dropAt]
    intro cs he
    rw [he] at ht
    exact ht rfl
  · intro typed
    apply completions_eq
    rw [String.toList_append]
    rfl
  · exact d.nodup_labels_completions

/-- What an editor shows of names, and what is found wrong with them. -/
structure FindingsShown (d : Document) : Prop where
  goto : ∀ r ∈ d.occurrences, d.gotoDefinition? r.range.start = none ↔
    ∃ e ∈ analyze d {}, e.code = some .undefinedReference ∧ e.range = r.range
  outline : ∀ entry ∈ d.outline, entry.detail = "0 reference(s)" ↔
    ∃ e ∈ analyze d {}, e.code = some .unusedConcept ∧
      e.message = s!"concept `{entry.name}` is never referenced"

private theorem findingsShown_parse (source : String) : (parse source).FindingsShown := by
  constructor
  · intro r hr
    have hg := gotoDefinition?_of_symbolAt? (symbolAt?_start hr)
    rw [hg, Option.map_eq_none_iff, exists_undefinedReference_iff]
    refine Concept.firstNamed_eq_none_iff.trans ⟨fun hn => ⟨r, hr, hn, rfl⟩, ?_⟩
    rintro ⟨r', hr', hn, he⟩
    rwa [reference_of_range hr' hr he] at hn
  · intro entry he
    obtain ⟨c, hc, rfl⟩ := List.mem_map.mp he
    have hd : s!"{(parse source).referenceCount c.name} reference(s)" = "0 reference(s)" ↔
        (parse source).referenceCount c.name = 0 := by
      have hz : "0 reference(s)" = Nat.repr 0 ++ " reference(s)" := rfl
      rw [hz, ← Nat.repr_inj]
      exact String.append_left_inj " reference(s)"
    have hn : (parse source).referenceCount c.name = 0 ↔
        c.name ∉ (parse source).references.map (·.name) := by
      simp [referenceCount]
    rw [exists_unusedConcept_iff rfl]
    exact (hd.trans hn).trans (and_iff_right (List.mem_map_of_mem hc)).symm

/-- Scans and indices agree on every document. So the references that lead nowhere and the concepts
that an outline shows without uses are just those that the analysis of a source reports. -/
theorem scans_agree_with_indices :
    (∀ (d : Document) (options : Options), d.ScansAgree (Analysis.ofDocument d options)) ∧
      ∀ source, (parse source).FindingsShown :=
  ⟨scansAgree_ofDocument, findingsShown_parse⟩

/-- Of two concepts of a name the first is the one described, and the uses of both count. -/
example : let d := parse "@Cat one\n@Cat two @Cat\n@Cow"
    (d.completions "@C", d.outline.map (·.detail)) =
      ([⟨"Cat", some "one"⟩, ⟨"Cow", none⟩],
        ["1 reference(s)", "1 reference(s)", "0 reference(s)"]) := by
  decide

end Document

end ConceptMarkup
