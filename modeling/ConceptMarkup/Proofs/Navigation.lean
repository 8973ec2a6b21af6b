import ConceptMarkup.Proofs.CollectedNames
import ConceptMarkup.Proofs.SymbolPlaces

/-! Going from a use of a name to others. In a parsed document every use that is found from a place
leads back to its symbol, so that what is found does not depend on the use from which it is asked
for. -/
namespace ConceptMarkup

/-- The mention that stands for a symbol: the marker of a definition, or the reference. -/
def Symbol.mention : Symbol → Range
  | definition c => c.nameRange
  | reference r => r.range

@[simp] theorem Symbol.mention_definition (c : Concept) :
    (definition c).mention = c.nameRange := rfl

@[simp] theorem Symbol.mention_reference (r : Reference) : (reference r).mention = r.range := rfl

@[simp] theorem Symbol.name_definition (c : Concept) : (definition c).name = c.name := rfl

@[simp] theorem Symbol.name_reference (r : Reference) : (reference r).name = r.name := rfl

namespace Document

private theorem usesAt_of_symbolAt? {d : Document} {p : Position} {symbol : Symbol}
    (h : d.symbolAt? p = some symbol) (withMarkers : Bool) :
    d.usesAt p withMarkers = d.usesOf symbol.name withMarkers := by
  rw [usesAt, h, Option.elim_some]

private theorem mem_usesOf_true_iff {d : Document} {name : String} {range : Range} :
    range ∈ d.usesOf name true ↔ (∃ c ∈ d.concepts, c.name = name ∧ c.nameRange = range) ∨
      ∃ r ∈ d.references, r.name = name ∧ r.range = range := by
  simp [usesOf, markersOf, and_assoc]

private theorem mention_mem_usesAt {d : Document} {p : Position} {symbol : Symbol}
    (h : d.symbolAt? p = some symbol) : symbol.mention ∈ d.usesAt p true := by
  rw [usesAt_of_symbolAt? h, mem_usesOf_true_iff]
  rcases (mem_of_symbolAt? h).2 with ⟨c, hc, rfl⟩ | ⟨r, hr, rfl⟩
  · exact .inl ⟨c, hc, rfl, rfl⟩
  · exact .inr ⟨r, hr, rfl, rfl⟩

private theorem WellFormed.markers_nodup {cs : List Char} {d : Document} (h : d.WellFormed cs) :
    (d.concepts.map (·.nameRange)).Nodup := by
  apply List.pairwise_map.mpr
  apply h.apart.imp_of_mem
  intro c c' hc hc' hlt he
  have hle := Position.line_le_of_le (h.concepts c hc).1.holds_marker.start.2
  have hge := Position.line_le_of_le (h.concepts c' hc').1.holds_marker.start.1
  rw [he] at hle
  omega

private theorem usesOf_nodup (source name : String) (withMarkers : Bool) :
    ((parse source).usesOf name withMarkers).Nodup := by
  have hm : ((parse source).markersOf name).Nodup :=
    (wellFormed_parse source).markers_nodup.sublist (List.filter_sublist.map _)
  have hr : (((parse source).references.filter (·.name = name)).map (·.range)).Nodup :=
    (references_nodup source).sublist (List.filter_sublist.map _)
  have hd : ((parse source).markersOf name).Disjoint
      (((parse source).references.filter (·.name = name)).map (·.range)) := by
    intro range hm hr
    obtain ⟨c, hc, rfl⟩ := List.mem_map.mp hm
    obtain ⟨r, hr, he⟩ := List.mem_map.mp hr
    have hne := reference_start_ne (List.mem_of_mem_filter hc) (List.mem_of_mem_filter hr)
    exact hne (congrArg Range.start he)
  rw [usesOf]
  split
  · exact hm.append hr hd
  · rw [List.nil_append]
    exact hr

private theorem symbolAt?_use {source name : String} {range : Range}
    (h : range ∈ (parse source).usesOf name true) :
    (∃ c ∈ (parse source).concepts, c.name = name ∧ c.nameRange = range ∧
        (parse source).symbolAt? range.start = some (.definition c)) ∨
      ∃ r ∈ (parse source).references, r.name = name ∧ r.range = range ∧
        (parse source).symbolAt? range.start = some (.reference r) := by
  rcases mem_usesOf_true_iff.mp h with ⟨c, hc, hn, rfl⟩ | ⟨r, hr, hn, rfl⟩
  · exact .inl ⟨c, hc, hn, rfl, symbolAt?_marker hc⟩
  · exact .inr ⟨r, hr, hn, rfl, symbolAt?_start hr⟩

private theorem exists_symbolAt?_use {source name : String} {range : Range}
    (h : range ∈ (parse source).usesOf name true) :
    ∃ symbol, (parse source).symbolAt? range.start = some symbol ∧ symbol.name = name := by
  rcases symbolAt?_use h with ⟨c, -, hn, -, hs⟩ | ⟨r, -, hn, -, hs⟩
  · exact ⟨_, hs, hn⟩
  · exact ⟨_, hs, hn⟩

/-- What is found from a place with a symbol, from the uses of the symbol, and from its
definition. -/
structure NavigationClosed (d : Document) (p : Position) (symbol : Symbol) : Prop where
  own : symbol.mention ∈ d.usesAt p true
  distinct : (d.usesAt p true).Nodup
  marker : ∀ range ∈ d.usesAt p true, range ∈ d.concepts.map (·.nameRange) → ∃ c,
    d.symbolAt? range.start = some (.definition c) ∧ c.name = symbol.name ∧ c.nameRange = range
  reference : ∀ range ∈ d.usesAt p true, range ∉ d.concepts.map (·.nameRange) → ∃ r,
    d.symbolAt? range.start = some (.reference r) ∧ r.name = symbol.name ∧ r.range = range
  uses : ∀ range ∈ d.usesAt p true, ∀ withMarkers,
    d.usesAt range.start withMarkers = d.usesAt p withMarkers
  goto : ∀ range ∈ d.usesAt p true, d.gotoDefinition? range.start = d.gotoDefinition? p
  definition : ∀ range, d.gotoDefinition? p = some range → ∃ c,
    d.definition? symbol.name = some c ∧ d.symbolAt? range.start = some (.definition c) ∧
      d.gotoDefinition? range.start = some range

/-- Navigation in a parsed document is closed. From a place with a symbol the uses are found once
each; each leads to a symbol of the same name, from which the same uses and the same definition are
found; and that definition is the first of its name and leads to itself. -/
theorem navigation_closed (source : String) (p : Position) (symbol : Symbol)
    (h : (parse source).symbolAt? p = some symbol) :
    (parse source).NavigationClosed p symbol := by
  have hu := usesAt_of_symbolAt? h
  constructor
  · exact mention_mem_usesAt h
  · rw [hu]
    exact usesOf_nodup source symbol.name true
  · intro range hm hmark
    rw [hu] at hm
    rcases symbolAt?_use hm with ⟨c, -, hn, he, hs⟩ | ⟨r, hr, -, rfl, -⟩
    · exact ⟨c, hs, hn, he⟩
    · obtain ⟨c, hc, he⟩ := List.mem_map.mp hmark
      exact absurd (congrArg Range.start he).symm (reference_start_ne hc hr)
  · intro range hm hmark
    rw [hu] at hm
    rcases symbolAt?_use hm with ⟨c, hc, -, rfl, -⟩ | ⟨r, -, hn, he, hs⟩
    · exact absurd (List.mem_map_of_mem hc) hmark
    · exact ⟨r, hs, hn, he⟩
  · intro range hm withMarkers
    rw [hu] at hm
    obtain ⟨symbol', hs, hn⟩ := exists_symbolAt?_use hm
    rw [usesAt_of_symbolAt? hs, hu, hn]
  · intro range hm
    rw [hu] at hm
    obtain ⟨symbol', hs, hn⟩ := exists_symbolAt?_use hm
    rw [gotoDefinition?_of_symbolAt? hs, gotoDefinition?_of_symbolAt? h, hn]
  · intro range hg
    rw [gotoDefinition?_of_symbolAt? h] at hg
    obtain ⟨c, hf, rfl⟩ := Option.map_eq_some_iff.mp hg
    obtain ⟨hc, hn⟩ := Concept.mem_of_firstNamed hf
    have hs := symbolAt?_marker hc
    refine ⟨c, hf, hs, ?_⟩
    rw [gotoDefinition?_of_symbolAt? hs, Symbol.name, hn, hf]
    rfl

/-- Where a marker and a reference meet, the cursor is on the reference. Its name is defined on the
third line, and another reference to it touches one to an undefined name. -/
theorem navigation_closed_between_mentions :
    let d := parse "@A@B\n@C x@B@D\n@B"
    let p : Position := ⟨1, 3, 0⟩
    let r : Reference := ⟨"B", ⟨1, 3, 2⟩, ⟨1, 5, 4⟩⟩
    d.symbolAt? p = some (.reference r) ∧
      d.usesAt p true = [⟨⟨3, 1, 14⟩, ⟨3, 3, 16⟩⟩, r.range, ⟨⟨2, 5, 9⟩, ⟨2, 7, 11⟩⟩] ∧
      d.usesAt ⟨2, 5, 9⟩ true = d.usesAt p true ∧
      d.gotoDefinition? ⟨2, 5, 9⟩ = some ⟨⟨3, 1, 14⟩, ⟨3, 3, 16⟩⟩ := by
  intro d p r
  have hs : d.symbolAt? p = some (.reference r) := by decide
  have hu : d.usesAt p true = [⟨⟨3, 1, 14⟩, ⟨3, 3, 16⟩⟩, r.range, ⟨⟨2, 5, 9⟩, ⟨2, 7, 11⟩⟩] := by
    decide
  have h := navigation_closed "@A@B\n@C x@B@D\n@B" p (.reference r) hs
  have hm : (⟨⟨2, 5, 9⟩, ⟨2, 7, 11⟩⟩ : Range) ∈ d.usesAt p true := by simp [hu]
  refine ⟨hs, hu, h.uses _ hm true, (h.goto _ hm).trans ?_⟩
  decide

end Document

end ConceptMarkup
