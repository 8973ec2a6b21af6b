import Mathlib.Data.List.Nodup
import ConceptMarkup.Editor.Symbol
import ConceptMarkup.Proofs.DocumentTree
import ConceptMarkup.Proofs.MentionClasses

/-! What stands at a place of a parsed document. No place lies in two concepts, and of the
references at a place the last in the text is taken. -/
namespace ConceptMarkup.Document

theorem WellFormed.find?_concept {cs : List Char} {d : Document} (h : d.WellFormed cs)
    {c : Concept} (hc : c ∈ d.concepts) {p : Position} (hp : p ∈ c.range) :
    d.concepts.find? (p ∈ ·.range) = some c := by
  obtain ⟨before, after, he⟩ := List.append_of_mem hc
  have hn := h.not_mem_two p
  rw [he, List.pairwise_append] at hn
  refine List.find?_eq_some_iff_append.mpr ⟨decide_eq_true hp, before, after, he, ?_⟩
  intro c' hc'
  have hno := hn.2.2 c' hc' c List.mem_cons_self
  simpa using fun hp' => hno ⟨hp', hp⟩

/-- What stands at a place is a part of the document that holds the place. -/
theorem mem_of_symbolAt? {d : Document} {p : Position} {symbol : Symbol}
    (h : d.symbolAt? p = some symbol) : p ∈ symbol.range ∧
      ((∃ c ∈ d.concepts, symbol = .definition c) ∨
        ∃ r ∈ d.references, symbol = .reference r) := by
  obtain ⟨c, hc, hs⟩ := Option.bind_eq_some_iff.mp h
  have hm := List.mem_of_find?_eq_some hc
  split at hs
  · next r hr =>
    cases hs
    obtain ⟨hr, hp⟩ := List.mem_filter.mp (List.mem_of_getLast? hr)
    exact ⟨of_decide_eq_true hp, .inr ⟨r, List.mem_flatMap.mpr ⟨c, hm, hr⟩, rfl⟩⟩
  · cases hs
    have hp := List.find?_some hc
    exact ⟨of_decide_eq_true hp, .inl ⟨c, hm, rfl⟩⟩

theorem gotoDefinition?_of_symbolAt? {d : Document} {p : Position} {symbol : Symbol}
    (h : d.symbolAt? p = some symbol) :
    d.gotoDefinition? p = (d.definition? symbol.name).map (·.nameRange) := by
  rw [gotoDefinition?, h]
  exact (Option.map_eq_bind ..).symm

theorem references_nodup (source : String) :
    ((parse source).references.map (·.range)).Nodup := by
  apply List.pairwise_map.mpr
  apply (references_sorted source).imp
  intro r r' hlt he
  rw [he] at hlt
  exact Nat.lt_irrefl _ hlt.1

theorem reference_of_range {source : String} {r r' : Reference}
    (hr : r ∈ (parse source).references) (hr' : r' ∈ (parse source).references)
    (h : r.range = r'.range) : r = r' :=
  List.inj_on_of_nodup_map (references_nodup source) hr hr' h

/-- A cursor at the start of a reference is on that reference. -/
theorem symbolAt?_start {source : String} {r : Reference}
    (hr : r ∈ (parse source).references) :
    (parse source).symbolAt? r.range.start = some (.reference r) := by
  have h := wellFormed_parse source
  obtain ⟨c, hc, hrc⟩ := List.mem_flatMap.mp hr
  have hw := (h.concepts c hc).1
  obtain ⟨hs, hh⟩ := hw.reference hrc
  obtain ⟨before, after, he⟩ := List.append_of_mem hrc
  have hafter : after.filter (r.range.start ∈ ·.range) = [] := by
    have ho := (List.pairwise_flatMap.mp (references_sorted source)).1 c hc
    rw [he, List.pairwise_append, List.pairwise_cons] at ho
    rw [List.filter_eq_nil_iff]
    intro r' hr'
    have hs' := (hw.reference (he ▸ List.mem_append_right _ (List.mem_cons_of_mem r hr'))).1
    have := (ho.2.1.1 r' hr').1
    rw [decide_eq_true_eq, Range.mem_iff_offset hs' hs.start]
    omega
  have hself : r.range.start ∈ r.range := by
    rw [Range.mem_iff_offset hs hs.start]
    exact ⟨Nat.le_refl _, hs.forward⟩
  have hlast : (c.references.filter (r.range.start ∈ ·.range)).getLast? = some r := by
    have hcons : (r :: after).filter (r.range.start ∈ ·.range) = [r] := by
      rw [List.filter_cons, if_pos (decide_eq_true hself), hafter]
    rw [he, List.filter_append, hcons, List.getLast?_concat]
  simp only [symbolAt?, h.find?_concept hc hh.start, hlast, Option.bind_eq_bind, Option.bind_some]

/-- A cursor at the start of a marker is on that definition. -/
theorem symbolAt?_marker {source : String} {c : Concept} (hc : c ∈ (parse source).concepts) :
    (parse source).symbolAt? c.nameRange.start = some (.definition c) := by
  have h := wellFormed_parse source
  have hw := (h.concepts c hc).1
  have hnone : c.references.filter (c.nameRange.start ∈ ·.range) = [] := by
    rw [List.filter_eq_nil_iff]
    intro r hr
    have hlt := hw.marker_lt hr
    rw [decide_eq_true_eq, Range.mem_iff_offset (hw.reference hr).1 hw.marker.start]
    omega
  simp only [symbolAt?, h.find?_concept hc hw.holds_marker.start, hnone, List.getLast?_nil,
    Option.bind_eq_bind, Option.bind_some]

/-- No reference begins where a marker does: a cursor there tells which it is on. -/
theorem reference_start_ne {source : String} {c : Concept} {r : Reference}
    (hc : c ∈ (parse source).concepts) (hr : r ∈ (parse source).references) :
    r.range.start ≠ c.nameRange.start := by
  intro he
  have h := symbolAt?_start hr
  rw [he, symbolAt?_marker hc] at h
  cases h

end ConceptMarkup.Document
