import Mathlib.Data.List.Nodup
import ConceptMarkup.Proofs.Findings
import ConceptMarkup.Proofs.SymbolPlaces
import ConceptMarkup.Proofs.WirePlaces

/-! Where findings point. The text under a finding is a mention of the name that its message quotes,
or begins with one, and no two findings of a document point at the same range. -/
namespace ConceptMarkup
open Text

/-- A finding quotes `name` and has `text` under it. A reference is marked and nothing else; a
concept is marked as a whole, from its marker on. -/
inductive Diagnostic.About (e : Diagnostic) (name : String) (text : List Char) : Prop where
  | duplicate : e.code = some .duplicateDefinition →
      e.message = s!"concept `{name}` is already defined" → '@' :: name.toList <+: text →
      About e name text
  | undefined : e.code = some .undefinedReference → e.message = s!"undefined concept `{name}`" →
      text = '@' :: name.toList → About e name text
  | unused : e.code = some .unusedConcept →
      e.message = s!"concept `{name}` is never referenced" → '@' :: name.toList <+: text →
      About e name text

/-- What a finding marks is text of the source that it is about. -/
structure Diagnostic.PointsInto (e : Diagnostic) (source : List Char) : Prop where
  marked : ∃ name text, e.About name text ∧ ∀ file,
    BoundaryAt source (e.annotation file).span.1 ∧ BoundaryAt source (e.annotation file).span.2 ∧
      slice? (e.annotation file).span.1 (e.annotation file).span.2 source = some text
  onWire : Protocol.Addressable source →
    (Protocol.Span.ofRange source e.range).start.toPosition source = e.range.start ∧
      (Protocol.Span.ofRange source e.range).stop.toPosition source = e.range.stop

namespace Document

private theorem concept_range_spans {source : String} {c : Concept}
    (hc : c ∈ (parse source).concepts) :
    ∃ text, c.range.Spans source.toList text ∧ '@' :: c.name.toList <+: text := by
  have hw := ((wellFormed_parse source).concepts c hc).1
  obtain ⟨text, hs⟩ := hw.spans
  exact ⟨text, hs,
    hw.marker.isPrefix hs (start_of_mem_parse hc).symm hw.holds_marker.stop_offset⟩

theorem exists_about_of_mem_analyze {source : String} {options : Options} {e : Diagnostic}
    (h : e ∈ analyze (parse source) options) :
    ∃ name text, e.About name text ∧ e.range.Spans source.toList text := by
  rcases mem_analyze_iff.mp h with h | h | ⟨-, h⟩
  · obtain ⟨⟨first, c⟩, hr, rfl⟩ := List.mem_map.mp h
    obtain ⟨text, hs, hp⟩ := concept_range_spans (Concept.mem_of_mem_redefinitions hr)
    exact ⟨c.name, text, .duplicate rfl rfl hp, hs⟩
  · obtain ⟨r, hr, -, rfl⟩ := mem_undefinedErrors_iff.mp h
    obtain ⟨c, hc, hrc⟩ := List.mem_flatMap.mp hr
    have hs := (((wellFormed_parse source).concepts c hc).1.reference hrc).1
    rw [undefinedReference_eq]
    exact ⟨r.name, _, .undefined rfl rfl rfl, hs⟩
  · obtain ⟨c, hf, -, rfl⟩ := mem_unusedWarnings_iff.mp h
    obtain ⟨text, hs, hp⟩ := concept_range_spans (Concept.mem_of_firstNamed hf).1
    exact ⟨c.name, text, .unused rfl rfl hp, hs⟩

private theorem pointsInto_of_mem_analyze {source : String} {options : Options} {e : Diagnostic}
    (h : e ∈ analyze (parse source) options) : e.PointsInto source.toList := by
  obtain ⟨name, text, ha, hs⟩ := exists_about_of_mem_analyze h
  constructor
  · exact ⟨name, text, ha, fun _ => ⟨hs.start.1, hs.stop.1, hs.slice⟩⟩
  · intro haddr
    exact ⟨Protocol.Point.toPosition_ofPosition haddr hs.start,
      Protocol.Point.toPosition_ofPosition haddr hs.stop⟩

private theorem ranges_unusedWarnings_sublist (d : Document) :
    (d.unusedWarnings.map (·.range)).Sublist ((d.definedNames.filterMap fun name =>
      Concept.firstNamed name d.concepts).map (·.range)) := by
  have hs := (List.filter_sublist (l := d.definedNames)
    (p := (· ∉ d.referencedNames))).filterMap fun name =>
      (Concept.firstNamed name d.concepts).map (·.range)
  rw [unusedWarnings, List.map_filterMap, List.map_filterMap]
  simp only [Option.map_map]
  exact hs

private theorem ranges_of_concepts_nodup (source : String) :
    (((parse source).duplicateErrors ++ (parse source).unusedWarnings).map (·.range)).Nodup := by
  have hp := (Concept.redefinitions_append_first_perm (parse source).concepts).map (·.range)
  have hn := hp.nodup_iff.mpr (wellFormed_parse source).ranges_nodup
  have hd : (parse source).duplicateErrors.map (·.range) =
      ((Concept.redefinitions (parse source).concepts).map (·.2)).map (·.range) := by
    rw [duplicateErrors, List.map_map, List.map_map]
    rfl
  rw [List.map_append] at hn ⊢
  rw [hd]
  exact hn.sublist ((List.Sublist.refl _).append (ranges_unusedWarnings_sublist _))

private theorem ranges_undefinedErrors (d : Document) (options : Options) :
    (d.undefinedErrors options).map (·.range) =
      (d.referencedNames.filter (· ∉ d.definedNames)).flatMap fun name =>
        (Reference.to name d.references).map (·.range) := by
  rw [undefinedErrors, List.map_flatMap]
  apply List.flatMap_congr
  intro name _
  rw [List.map_map]
  rfl

private theorem ranges_of_references_nodup (source : String) (options : Options) :
    (((parse source).undefinedErrors options).map (·.range)).Nodup := by
  rw [ranges_undefinedErrors]
  apply List.nodup_flatMap.mpr
  constructor
  · intro name _
    exact (references_nodup source).sublist (List.filter_sublist.map _)
  · apply ((nodup_eraseDups _).filter _).imp
    intro name name' hne range hm hm'
    obtain ⟨r, hr, rfl⟩ := List.mem_map.mp hm
    obtain ⟨r', hr', he⟩ := List.mem_map.mp hm'
    obtain ⟨hin, hn⟩ := Reference.mem_to_iff.mp hr
    obtain ⟨hin', hn'⟩ := Reference.mem_to_iff.mp hr'
    rw [← hn, ← hn', reference_of_range hin' hin he] at hne
    exact hne rfl

private theorem concept_of_mem {d : Document} {e : Diagnostic}
    (h : e ∈ d.duplicateErrors ++ d.unusedWarnings) : ∃ c ∈ d.concepts, e.range = c.range := by
  rcases List.mem_append.mp h with h | h
  · obtain ⟨⟨first, c⟩, hr, rfl⟩ := List.mem_map.mp h
    exact ⟨c, Concept.mem_of_mem_redefinitions hr, rfl⟩
  · obtain ⟨c, hf, -, rfl⟩ := mem_unusedWarnings_iff.mp h
    exact ⟨c, (Concept.mem_of_firstNamed hf).1, rfl⟩

private theorem ranges_disjoint (source : String) (options : Options) :
    (((parse source).duplicateErrors ++ (parse source).unusedWarnings).map (·.range)).Disjoint
      (((parse source).undefinedErrors options).map (·.range)) := by
  intro range hm hm'
  obtain ⟨e, he, rfl⟩ := List.mem_map.mp hm
  obtain ⟨e', he', heq⟩ := List.mem_map.mp hm'
  obtain ⟨c, hc, hr⟩ := concept_of_mem he
  obtain ⟨r, hr', -, rfl⟩ := mem_undefinedErrors_iff.mp he'
  rw [undefinedReference_eq] at heq
  apply reference_start_ne hc hr'
  rw [← start_of_mem_parse hc, ← hr, ← heq]

private theorem ranges_nodup (source : String) (options : Options) :
    ((analyze (parse source) options).map (·.range)).Nodup := by
  have hn := (ranges_of_concepts_nodup source).append (ranges_of_references_nodup source options)
    (ranges_disjoint source options)
  rw [← List.map_append, List.append_assoc] at hn
  have hc : ((parse source).undefinedErrors options ++ (parse source).unusedWarnings).Perm
      ((parse source).unusedWarnings ++ (parse source).undefinedErrors options) :=
    List.perm_append_comm
  have hp := (hc.append_left (parse source).duplicateErrors).map (·.range)
  have hs : (if options.unusedConcepts then (parse source).unusedWarnings else []).Sublist
      (parse source).unusedWarnings := by
    split
    · exact .refl _
    · exact List.nil_sublist _
  have ha := (List.Sublist.refl (parse source).duplicateErrors).append
    ((List.Sublist.refl ((parse source).undefinedErrors options)).append hs)
  rw [analyze_eq]
  exact (hp.nodup_iff.mpr hn).sublist (ha.map _)

/-- Every finding points at text that it talks about: what it marks is cut out of the source between
boundaries, begins with the mention of the name that its message quotes, and is no more than that if
it is a reference. No two findings mark the same range, and an editor that is sent a range can tell
its two ends. -/
theorem findings_point_at_text (source : String) (options : Options) :
    (∀ e ∈ analyze (parse source) options, e.PointsInto source.toList) ∧
      ((analyze (parse source) options).map (·.range)).Nodup :=
  ⟨fun _ h => pointsInto_of_mem_analyze h, ranges_nodup source options⟩

/-- A reference behind a character beyond the basic plane: four bytes and two units for one
column. -/
theorem findings_point_at_text_after_astral :
    let source := "@Cat é😀@Dog \n@Cat"
    let e : Diagnostic :=
      { severity := .error
        message := "undefined concept `Dog`"
        range := ⟨⟨1, 8, 11⟩, ⟨1, 12, 15⟩⟩
        code := some .undefinedReference }
    e ∈ analyze (parse source) { suggestions := false } ∧ Protocol.Addressable source.toList ∧
      e.PointsInto source.toList ∧ slice? 11 15 source.toList = some "@Dog".toList ∧
      Protocol.Point.ofPosition source.toList e.range.stop = ⟨0, 12⟩ ∧
      (Protocol.Point.ofPosition source.toList e.range.stop).toPosition source.toList =
        e.range.stop := by
  intro source e
  have he : e ∈ analyze (parse source) { suggestions := false } :=
    mem_analyze_iff.mpr (.inr (.inl (by decide)))
  have ha : Protocol.Addressable source.toList := ⟨by decide, by decide⟩
  have hp := (findings_point_at_text source { suggestions := false }).1 e he
  exact ⟨he, ha, hp, by decide, by decide, (hp.onWire ha).2⟩

end Document

end ConceptMarkup
