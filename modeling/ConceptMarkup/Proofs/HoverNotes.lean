import ConceptMarkup.Proofs.InnermostSymbols
import ConceptMarkup.Proofs.Navigation

/-! The note under a cursor. A parsed document has one note for each name, whether it is asked for
at a reference, at the first marker of the name or at a later one; where the cursor stands decides
only on the name and on the range. -/
namespace ConceptMarkup

private theorem Concept.isEmpty_text_of_mem_parse {source : String} {c : Concept}
    (h : c ∈ (Document.parse source).concepts) : c.text.isEmpty = c.prose.isEmpty := by
  rw [Document.parse_concepts] at h
  obtain ⟨p, name, body, rfl⟩ := exists_ofBody_of_mem_ofTexts h
  by_cases hb : Text.Blank body
  · rw [ofBody_of_blank p name hb]
    rfl
  · obtain ⟨lead, text, trail, ht, hn⟩ := Text.exists_trimmed_of_not_blank hb
    rw [ofBody_of_trimmed p name ht hn]
    change (String.ofList text).isEmpty = false
    rw [String.isEmpty_eq_false_iff, ne_eq, String.ofList_eq_empty_iff]
    exact hn

namespace Document

/-- The note on a name: the text of the first concept of the name and the number of all references
to it, or that there is no such concept. -/
def noteOn (d : Document) (name : String) : String :=
  match d.concepts.filter (·.name = name) with
  | [] => s!"Undefined concept `{name}`"
  | first :: _ =>
    let body := if first.prose.isEmpty then "_No description._" else first.text
    let uses := (Reference.to name d.references).length
    let plural := if uses = 1 then "" else "s"
    s!"**@{name}**\n\n{body}\n\n_Referenced {uses} time{plural}._"

private theorem noteOn_eq (source name : String) :
    (parse source).noteOn name = ((parse source).definition? name).elim
      s!"Undefined concept `{name}`" (parse source).describe := by
  cases hd : (parse source).definition? name with
  | none =>
    rw [definition?, ← List.head?_filter, List.head?_eq_none_iff] at hd
    rw [noteOn, hd, Option.elim_none]
  | some c =>
    obtain ⟨hc, rfl⟩ := Concept.mem_of_firstNamed hd
    rw [definition?, ← List.head?_filter] at hd
    obtain ⟨rest, hr⟩ := List.head?_eq_some_iff.mp hd
    rw [noteOn, hr, Option.elim_some, describe, Concept.isEmpty_text_of_mem_parse hc,
      referenceCount, List.countP_eq_length_filter]
    rfl

private theorem hover?_eq (source : String) (p : Position) :
    (parse source).hover? p = (((parse source).symbolAt? p).filter (p ∈ ·.mention)).map
      fun symbol => ⟨symbol.mention, (parse source).noteOn symbol.name⟩ := by
  rw [hover?]
  cases hs : (parse source).symbolAt? p with
  | none => rfl
  | some symbol =>
    obtain ⟨hp, ⟨c, hc, rfl⟩ | ⟨r, -, rfl⟩⟩ := mem_of_symbolAt? hs
    · obtain ⟨first, hd⟩ : ∃ first, (parse source).definition? c.name = some first :=
        Option.ne_none_iff_exists'.mp fun hf =>
          Concept.firstNamed_eq_none_iff.mp hf (List.mem_map_of_mem hc)
      by_cases hm : p ∈ c.nameRange
      · simp [Option.filter_some, hm, noteOn_eq, hd]
      · simp [Option.filter_some, hm]
    · have hr : p ∈ r.range := hp
      simp [Option.filter_some, hr, noteOn_eq]

section
variable {source : String} {p : Position}

private theorem hover?_of_symbolAt? {symbol : Symbol}
    (hs : (parse source).symbolAt? p = some symbol)
    (hp : p ∈ symbol.mention) :
    (parse source).hover? p = some ⟨symbol.mention, (parse source).noteOn symbol.name⟩ := by
  rw [hover?_eq, hs, Option.filter_some, if_pos (decide_eq_true hp)]
  rfl

private theorem of_hover?_eq_some {note : Hover} (h : (parse source).hover? p = some note) :
    ∃ symbol, (parse source).symbolAt? p = some symbol ∧ p ∈ symbol.mention ∧
      note = ⟨symbol.mention, (parse source).noteOn symbol.name⟩ := by
  rw [hover?_eq] at h
  obtain ⟨symbol, hf, rfl⟩ := Option.map_eq_some_iff.mp h
  obtain ⟨hs, hp⟩ := Option.filter_eq_some_iff.mp hf
  exact ⟨symbol, hs, of_decide_eq_true hp, rfl⟩

private theorem contents_of_hover? {note : Hover} {symbol : Symbol}
    (h : (parse source).hover? p = some note) (hs : (parse source).symbolAt? p = some symbol) :
    note.contents = (parse source).noteOn symbol.name := by
  obtain ⟨found, hf, -, rfl⟩ := of_hover?_eq_some h
  obtain rfl := Option.some.inj (hs.symm.trans hf)
  rfl

private theorem hover?_of_reference {r : Reference}
    (h : ((parse source).references.filter (p ∈ ·.range)).getLast? = some r) :
    (parse source).hover? p = some ⟨r.range, (parse source).noteOn r.name⟩ := by
  have hs : (parse source).symbolAt? p = some (.reference r) := by
    rw [(wellFormed_parse source).symbolAt?_eq_innermost?, innermost?, h]
  exact hover?_of_symbolAt? hs (mem_of_symbolAt? hs).1

private theorem hover?_of_marker (hr : ∀ r ∈ (parse source).references, p ∉ r.range) {c : Concept}
    (hc : c ∈ (parse source).concepts) (hp : p ∈ c.nameRange) :
    (parse source).hover? p = some ⟨c.nameRange, (parse source).noteOn c.name⟩ := by
  have h := wellFormed_parse source
  have hnone : (parse source).references.filter (p ∈ ·.range) = [] := by
    rw [List.filter_eq_nil_iff]
    intro r hm
    rw [decide_eq_true_eq]
    exact hr r hm
  have hfind := h.find?_concept hc ((h.concepts c hc).1.holds_marker.mem hp)
  have hs : (parse source).symbolAt? p = some (.definition c) := by
    rw [h.symbolAt?_eq_innermost?, innermost?, hnone, hfind]
    rfl
  exact hover?_of_symbolAt? hs hp

end

/-- The note at a place, by the mentions that hold the place. -/
structure HoverNotes (d : Document) (p : Position) : Prop where
  isSome : (d.hover? p).isSome ↔
    (∃ r ∈ d.references, p ∈ r.range) ∨ ∃ c ∈ d.concepts, p ∈ c.nameRange
  reference : ∀ r, (d.references.filter (p ∈ ·.range)).getLast? = some r →
    d.hover? p = some ⟨r.range, d.noteOn r.name⟩
  marker : (∀ r ∈ d.references, p ∉ r.range) → ∀ c ∈ d.concepts, p ∈ c.nameRange →
    d.hover? p = some ⟨c.nameRange, d.noteOn c.name⟩
  contents : ∀ note symbol, d.hover? p = some note → d.symbolAt? p = some symbol →
    note.contents = d.noteOn symbol.name
  oneName : ∀ q note note' symbol symbol', d.hover? p = some note → d.hover? q = some note' →
    d.symbolAt? p = some symbol → d.symbolAt? q = some symbol' → symbol.name = symbol'.name →
      note.contents = note'.contents

/-- In a parsed document there is a note exactly at the places that a reference or a marker holds.
Its range is that of the last such reference or, without one, of the marker, and its contents are
the note on the name, the same from wherever the name is asked for. -/
theorem hoverNotes_parse (source : String) (p : Position) : (parse source).HoverNotes p := by
  constructor
  · constructor
    · intro h
      obtain ⟨note, hn⟩ := Option.isSome_iff_exists.mp h
      obtain ⟨symbol, hs, hp, -⟩ := of_hover?_eq_some hn
      rcases (mem_of_symbolAt? hs).2 with ⟨c, hc, rfl⟩ | ⟨r, hr, rfl⟩
      · exact .inr ⟨c, hc, hp⟩
      · exact .inl ⟨r, hr, hp⟩
    · intro h
      by_cases hr : ∃ r ∈ (parse source).references, p ∈ r.range
      · obtain ⟨r, hm, hp⟩ := hr
        have hf : r ∈ (parse source).references.filter (p ∈ ·.range) :=
          List.mem_filter.mpr ⟨hm, decide_eq_true hp⟩
        rw [hover?_of_reference (List.getLast?_eq_some_getLast (List.ne_nil_of_mem hf))]
        rfl
      · obtain ⟨c, hc, hp⟩ := h.resolve_left hr
        rw [hover?_of_marker (fun r hm hp => hr ⟨r, hm, hp⟩) hc hp]
        rfl
  · exact fun r => hover?_of_reference
  · exact fun hr c => hover?_of_marker hr
  · exact fun note symbol => contents_of_hover?
  · intro q note note' symbol symbol' hn hn' hs hs' he
    rw [contents_of_hover? hn hs, contents_of_hover? hn' hs', he]

/-- The reference, the marker of the first definition and that of the second have one note. -/
example : let d := parse "@A see @B\n@B\n@B again"
    let note := some "**@B**\n\n_No description._\n\n_Referenced 1 time._"
    ((d.hover? ⟨1, 8, 0⟩).map (·.contents), (d.hover? ⟨2, 1, 0⟩).map (·.contents),
      (d.hover? ⟨3, 2, 0⟩).map (·.contents)) = (note, note, note) := by
  decide

end Document

end ConceptMarkup
