import ConceptMarkup.Editor.Hover
import ConceptMarkup.Proofs.SymbolPlaces

/-! What stands at a place, looked up among all concepts and all references of a parsed document.
The place need not be one of the text: it may lie behind the end of a line, and its offset is not
used. -/
namespace ConceptMarkup.Document

/-- The innermost symbol at a place of the whole document: the last reference that holds it, and
otherwise the concept that does. -/
def innermost? (d : Document) (p : Position) : Option Symbol :=
  match (d.references.filter (p ∈ ·.range)).getLast? with
  | some r => some (.reference r)
  | none => (d.concepts.find? (p ∈ ·.range)).map .definition

section WellFormed
variable {cs : List Char} {d : Document}

private theorem WellFormed.holds_reference (h : d.WellFormed cs) {c : Concept} (hc : c ∈ d.concepts)
    {r : Reference} (hr : r ∈ c.references) {p : Position} (hp : p ∈ r.range) : p ∈ c.range :=
  ((h.concepts c hc).1.reference hr).2.mem hp

private theorem WellFormed.reference (h : d.WellFormed cs) {r : Reference} (hr : r ∈ d.references) :
    r.range.Spans cs ('@' :: r.name.toList) := by
  obtain ⟨c, hc, hr⟩ := List.mem_flatMap.mp hr
  exact ((h.concepts c hc).1.reference hr).1

private theorem WellFormed.length_concepts_le (h : d.WellFormed cs) (p : Position) :
    (d.concepts.filter (p ∈ ·.range)).length ≤ 1 := by
  have hn : (d.concepts.filter (p ∈ ·.range)).Pairwise fun _ _ => False := by
    apply ((h.not_mem_two p).filter _).imp_of_mem
    intro c c' hc hc' hno
    have hp := of_decide_eq_true (List.mem_filter.mp hc).2
    have hp' := of_decide_eq_true (List.mem_filter.mp hc').2
    exact hno ⟨hp, hp'⟩
  cases hl : d.concepts.filter (p ∈ ·.range) with
  | nil => exact Nat.zero_le _
  | cons c rest =>
    rw [hl, List.pairwise_cons] at hn
    rw [List.eq_nil_iff_forall_not_mem.mpr hn.1]
    exact Nat.le_refl _

private theorem WellFormed.filter_references (h : d.WellFormed cs) {c : Concept}
    (hc : c ∈ d.concepts)
    {p : Position} (hp : p ∈ c.range) :
    d.references.filter (p ∈ ·.range) = c.references.filter (p ∈ ·.range) := by
  obtain ⟨before, after, he⟩ := List.append_of_mem hc
  have hn := h.not_mem_two p
  rw [he, List.pairwise_append, List.pairwise_cons] at hn
  obtain ⟨-, ⟨hafter, -⟩, hbefore⟩ := hn
  have hnone : ∀ c' ∈ d.concepts, p ∉ c'.range → c'.references.filter (p ∈ ·.range) = [] := by
    intro c' hc' hno
    rw [List.filter_eq_nil_iff]
    intro r hr
    rw [decide_eq_true_eq]
    exact fun hpr => hno (h.holds_reference hc' hr hpr)
  have hb : before.flatMap (fun c' => c'.references.filter (p ∈ ·.range)) = [] := by
    rw [List.flatMap_eq_nil_iff]
    intro c' hc'
    apply hnone c' (he ▸ List.mem_append_left _ hc')
    exact fun hp' => hbefore c' hc' c List.mem_cons_self ⟨hp', hp⟩
  have ha : after.flatMap (fun c' => c'.references.filter (p ∈ ·.range)) = [] := by
    rw [List.flatMap_eq_nil_iff]
    intro c' hc'
    apply hnone c' (he ▸ List.mem_append_right _ (List.mem_cons_of_mem c hc'))
    exact fun hp' => hafter c' hc' ⟨hp, hp'⟩
  rw [references, List.filter_flatMap, he, List.flatMap_append, List.flatMap_cons, hb, ha,
    List.nil_append, List.append_nil]

/-- To look within the concept around a place is to look everywhere. -/
theorem WellFormed.symbolAt?_eq_innermost? (h : d.WellFormed cs) (p : Position) :
    d.symbolAt? p = d.innermost? p := by
  rw [symbolAt?, innermost?]
  cases hf : d.concepts.find? (p ∈ ·.range) with
  | some c =>
    have hp : p ∈ c.range := by simpa using List.find?_some hf
    rw [h.filter_references (List.mem_of_find?_eq_some hf) hp]
    rfl
  | none =>
    have hnone : d.references.filter (p ∈ ·.range) = [] := by
      rw [List.filter_eq_nil_iff]
      intro r hr
      obtain ⟨c, hc, hr⟩ := List.mem_flatMap.mp hr
      rw [decide_eq_true_eq]
      intro hp
      exact List.find?_eq_none.mp hf c hc (decide_eq_true (h.holds_reference hc hr hp))
    rw [hnone]
    rfl

end WellFormed

private theorem references_touching (source : String) (p : Position) :
    ((parse source).references.filter (p ∈ ·.range)).Pairwise
      fun r r' => r.range.stop = r'.range.start := by
  have h := wellFormed_parse source
  apply ((references_sorted source).filter _).imp_of_mem
  rintro r r' hr hr' ⟨-, hle⟩
  obtain ⟨hr, hp⟩ := List.mem_filter.mp hr
  obtain ⟨hr', hp'⟩ := List.mem_filter.mp hr'
  have hs := (h.reference hr).stop
  have hs' := (h.reference hr').start
  have hge := Position.le_trans (of_decide_eq_true hp').1 (of_decide_eq_true hp).2
  exact hs.eq_of_le hs' ((Position.le_iff_offset_le hs hs').mpr hle) hge

private theorem length_references_le (source : String) (p : Position) :
    ((parse source).references.filter (p ∈ ·.range)).length ≤ 2 := by
  have ht := references_touching source p
  rcases hl : (parse source).references.filter (p ∈ ·.range) with _ | ⟨r, _ | ⟨r', _ | ⟨r'', rest⟩⟩⟩
  · rw [hl]
    exact Nat.zero_le _
  · rw [hl]
    exact Nat.le_succ _
  · rw [hl]
    exact Nat.le_refl _
  · rw [hl, List.pairwise_cons, List.pairwise_cons] at ht
    obtain ⟨hfirst, hsecond, -⟩ := ht
    have hstart := hfirst r' List.mem_cons_self
    have hnext := hfirst r'' (List.mem_cons_of_mem _ List.mem_cons_self)
    have hstop := hsecond r'' List.mem_cons_self
    have hm : r' ∈ (parse source).references.filter (p ∈ ·.range) := by simp [hl]
    have hlt := ((wellFormed_parse source).reference (List.mem_of_mem_filter hm)).start_lt_stop
      (List.cons_ne_nil _ _)
    rw [hstop, ← hnext, hstart] at hlt
    exact absurd hlt (Nat.lt_irrefl _)

private theorem symbolAt?_offset (d : Document) (p : Position) (o : Nat) :
    d.symbolAt? ⟨p.line, p.column, o⟩ = d.symbolAt? p := rfl

/-- The lookup at a place: what is found is innermost in the whole document, and there is no choice
but between two references that meet at the place. -/
structure InnermostLookup (d : Document) (p : Position) : Prop where
  one_concept : (d.concepts.filter (p ∈ ·.range)).length ≤ 1
  innermost : d.symbolAt? p = d.innermost? p
  start : ∀ r ∈ d.references, r.range.start.line = p.line → r.range.start.column = p.column →
    d.innermost? p = some (.reference r)
  two_references : (d.references.filter (p ∈ ·.range)).length ≤ 2
  touching : (d.references.filter (p ∈ ·.range)).Pairwise fun r r' => r.range.stop = r'.range.start
  offset : ∀ o, d.symbolAt? ⟨p.line, p.column, o⟩ = d.symbolAt? p ∧
    d.gotoDefinition? ⟨p.line, p.column, o⟩ = d.gotoDefinition? p ∧
    d.hover? ⟨p.line, p.column, o⟩ = d.hover? p ∧
    ∀ withMarkers, d.usesAt ⟨p.line, p.column, o⟩ withMarkers = d.usesAt p withMarkers

/-- At any place of a parsed document, in the text or not, the symbol is the last of the references
that hold the place, which is the one that starts there if one does, and otherwise the one concept
around it. At most two references hold a place, and then the first ends where the second starts. -/
theorem innermostLookup_parse (source : String) (p : Position) :
    (parse source).InnermostLookup p := by
  have h := wellFormed_parse source
  refine ⟨h.length_concepts_le p, h.symbolAt?_eq_innermost? p, ?_, length_references_le source p,
    references_touching source p, ?_⟩
  · intro r hr hl hc
    have hs := symbolAt?_start hr
    rw [← symbolAt?_offset _ _ p.offset, hl, hc] at hs
    rw [← h.symbolAt?_eq_innermost? p]
    exact hs
  · intro o
    exact ⟨rfl, rfl, rfl, fun _ => rfl⟩

end ConceptMarkup.Document
