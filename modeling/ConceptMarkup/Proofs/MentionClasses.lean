import ConceptMarkup.Proofs.SectionReading

/-! Every mention of a text is a marker, a reference, or stands before the first marker. In order,
the mentions of a text are those of its preamble and then, concept by concept, the marker and the
references; what is sorted holds nothing twice. -/
namespace ConceptMarkup
open Text

def Concept.marker (c : Concept) : Reference := ⟨c.name, c.nameRange⟩

namespace Concept

private theorem ofBody_marker (p : Position) (name body : List Char) :
    (ofBody p name body).marker = .ofMention p name := rfl

private theorem ofBody_references (p : Position) (name body : List Char) :
    (ofBody p name body).references = Reference.allIn (p.after ('@' :: name)) body := by
  by_cases hb : Blank body
  · rw [Reference.allIn_of_not_mem _ (Reference.not_mem_of_blank hb)]
    simp [ofBody, references, Prose.ofBody?_of_blank _ hb]
  · obtain ⟨lead, text, trail, h, hn⟩ := exists_trimmed_of_not_blank hb
    rw [Reference.allIn_trimmed _ h]
    simp [ofBody, references, Prose.ofBody?_of_trimmed _ h hn]

private theorem allIn_ofTexts (p : Position) {css : List (List Char)}
    (h : ∀ sec ∈ css, ∃ name, mentionAt? sec = some name) :
    Reference.allIn p css.flatten = (ofTexts p css).flatMap fun c => c.marker :: c.references := by
  induction css generalizing p with
  | nil => rfl
  | cons sec css ih =>
    obtain ⟨name, hm⟩ := h sec List.mem_cons_self
    obtain ⟨body, rfl, hn, -⟩ := mention_split hm
    have hrest := fun s hs => h s (List.mem_cons_of_mem _ hs)
    rw [List.flatten_cons, Reference.allIn_append _ (not_isNameChar_head_flatten hrest), ih _ hrest,
      Reference.allIn_mention p hm hn, ofTexts, ofText_eq p hm, List.flatMap_cons, ofBody_marker,
      ofBody_references]

private theorem starts_ofTexts (p : Position) (css : List (List Char)) :
    (ofTexts p css).map (·.marker.range.start.offset) = starts p.offset css := by
  induction css generalizing p with
  | nil => rfl
  | cons sec css ih =>
    rw [ofTexts, List.map_cons, ih, Position.offset_after]
    rfl

end Concept

namespace Document

private theorem allIn_parse (source : String) :
    Reference.allIn .start source.toList =
      Reference.allIn .start (preamble source.toList) ++
        (parse source).concepts.flatMap fun c => c.marker :: c.references := by
  have h := marked_mention source.toList
  rw [parse_concepts, ← Concept.allIn_ofTexts _ h,
    ← Reference.allIn_append _ (not_isNameChar_head_flatten h), preamble_append_marked]

private theorem markers_parse (source : String) :
    (parse source).concepts.map (·.marker.range.start.offset) = markers source.toList := by
  rw [parse_concepts, Concept.starts_ofTexts, Position.offset_after, markers]
  simp [Position.start]

theorem markerAt_iff_mem_concepts {source : String} {o : Nat} :
    MarkerAt source.toList o ↔
      ∃ c ∈ (parse source).concepts, c.marker.range.start.offset = o := by
  rw [← mem_markers_iff, ← markers_parse, List.mem_map]

private abbrev startOf (r : Reference) : Nat := r.range.start.offset

private theorem mentions_sorted (cs : List Char) :
    (Reference.allIn .start cs).Pairwise fun r r' =>
      startOf r < startOf r' ∧ r.range.stop.offset ≤ startOf r' := by
  apply (Reference.allIn_ordered .start cs).imp_of_mem
  intro r r' hr _ h
  obtain ⟨o, name, hm, rfl⟩ := mem_allIn_start_iff.mp hr
  have := referenceAt_offsets hm
  exact ⟨by simp only [startOf]; omega, h⟩

private theorem countP_sorted {l : List Reference} {r : Reference}
    (h : l.Pairwise fun r r' => startOf r < startOf r') (hr : r ∈ l) :
    l.countP (fun r' => startOf r' = startOf r) = 1 := by
  induction l with
  | nil => cases hr
  | cons a l ih =>
    obtain ⟨ha, hl⟩ := List.pairwise_cons.mp h
    rcases List.mem_cons.mp hr with rfl | hr
    · have hz : l.countP (fun r' => startOf r' = startOf r) = 0 := by
        rw [List.countP_eq_zero]
        intro b hb
        have := ha b hb
        simp only [decide_eq_true_eq]
        omega
      simp [hz]
    · have := ha r hr
      rw [List.countP_cons, ih hl hr, if_neg]
      simp only [decide_eq_true_eq]
      omega

private theorem countP_groups (p : Reference → Bool) (cs : List Concept) :
    (cs.flatMap fun c => c.marker :: c.references).countP p =
      cs.countP (p ·.marker) + (cs.flatMap (·.references)).countP p := by
  induction cs with
  | nil => rfl
  | cons c cs ih =>
    simp only [List.flatMap_cons, List.countP_append, List.countP_cons, ih]
    omega

private theorem mention_once {source : String} {o : Nat} {name : List Char}
    (h : MentionAt source.toList o name) :
    (Reference.allIn .start (preamble source.toList)).countP (fun r => startOf r = o) +
      ((parse source).concepts.countP (fun c => startOf c.marker = o) +
        (parse source).references.countP (fun r => startOf r = o)) = 1 := by
  have hm := mem_allIn_start_iff.mpr ⟨o, name, h, rfl⟩
  have hc := countP_sorted ((mentions_sorted _).imp And.left) hm
  rw [startOf, (referenceAt_offsets h).1, allIn_parse, List.countP_append, countP_groups] at hc
  exact hc

private theorem startOf_preamble {cs : List Char} {r : Reference}
    (h : r ∈ Reference.allIn .start (preamble cs)) : startOf r < byteLength (preamble cs) := by
  obtain ⟨before, rest, name, he, hm, rfl⟩ := Reference.mem_allIn_iff.mp h
  obtain ⟨body, rfl, -, -⟩ := mention_split hm
  have := byteLength_pos (List.cons_ne_nil '@' (name ++ body))
  rw [startOf, (Reference.ofMention_offsets _ _).1, Position.offset_after, he, byteLength_append]
  simp only [Position.start]
  omega

private theorem groups_sorted (source : String) :
    ((parse source).concepts.flatMap fun c => c.marker :: c.references).Pairwise fun r r' =>
      startOf r < startOf r' ∧ r.range.stop.offset ≤ startOf r' := by
  have h := mentions_sorted source.toList
  rw [allIn_parse] at h
  exact (List.pairwise_append.mp h).2.1

private theorem marker_lt_reference {source : String} {c : Concept} {r : Reference}
    (hc : c ∈ (parse source).concepts) (hr : r ∈ c.references) : startOf c.marker < startOf r :=
  ((List.pairwise_cons.mp ((List.pairwise_flatMap.mp (groups_sorted source)).1 c hc)).1 r hr).1

private theorem marker_le_of_lt_reference {source : String} {c c' : Concept} {r : Reference}
    (hc : c ∈ (parse source).concepts) (hc' : c' ∈ (parse source).concepts)
    (hr : r ∈ c.references) (hlt : startOf c'.marker < startOf r) :
    startOf c'.marker ≤ startOf c.marker := by
  have hg := (List.pairwise_flatMap.mp (groups_sorted source)).2
  have hall : ∀ x ∈ (parse source).concepts, ∀ y ∈ (parse source).concepts,
      startOf y.marker ≤ startOf x.marker ∨ ∀ r ∈ x.references, startOf r < startOf y.marker := by
    apply List.Pairwise.forall_of_forall_of_flip
    · intro x _
      exact .inl (Nat.le_refl _)
    · apply hg.imp
      intro x y h
      exact .inr fun r hr => (h r (List.mem_cons_of_mem _ hr) _ List.mem_cons_self).1
    · apply hg.imp
      intro x y h
      exact .inl (Nat.le_of_lt (h _ List.mem_cons_self _ List.mem_cons_self).1)
  rcases hall c hc c' hc' with hle | hgt
  · exact hle
  · have := hgt r hr
    omega

theorem mem_allIn_of_mem_references {source : String} {r : Reference}
    (h : r ∈ (parse source).references) : r ∈ Reference.allIn .start source.toList := by
  obtain ⟨c, hc, hr⟩ := List.mem_flatMap.mp h
  rw [allIn_parse, List.mem_append, List.mem_flatMap]
  exact .inr ⟨c, hc, List.mem_cons_of_mem _ hr⟩

private theorem eq_referenceAt {source : String} {o : Nat} {name : List Char} {r : Reference}
    (h : MentionAt source.toList o name) (hr : r ∈ Reference.allIn .start source.toList)
    (ho : startOf r = o) : r = referenceAt source.toList o name := by
  obtain ⟨o', name', hm, rfl⟩ := mem_allIn_start_iff.mp hr
  rw [startOf, (referenceAt_offsets hm).1] at ho
  subst ho
  rw [hm.unique h]

/-- The last marker before byte offset `o` stands at `m`. -/
def LastMarkerBefore (cs : List Char) (o m : Nat) : Prop :=
  MarkerAt cs m ∧ m < o ∧ ∀ m', MarkerAt cs m' → m' < o → m' ≤ m

/-- What a document makes of the mention of `name` at byte offset `o`: at the start of a line it is
the marker of one concept, elsewhere one reference of the concept with the last marker before it,
and before the first marker nothing. -/
structure Classified (cs : List Char) (d : Document) (o : Nat) (name : List Char) : Prop where
  marker : LineStartAt cs o →
    (∃ c, d.concepts.filter (fun c => c.nameRange.start.offset = o) = [c] ∧
      c.marker = referenceAt cs o name) ∧
    d.references.filter (fun r => r.range.start.offset = o) = []
  reference : ¬ LineStartAt cs o → (∃ m, MarkerAt cs m ∧ m < o) →
    d.concepts.filter (fun c => c.nameRange.start.offset = o) = [] ∧
    d.references.filter (fun r => r.range.start.offset = o) = [referenceAt cs o name] ∧
    ∃ c ∈ d.concepts, referenceAt cs o name ∈ c.references ∧
      LastMarkerBefore cs o c.nameRange.start.offset
  outside : (∀ m, MarkerAt cs m → o < m) →
    d.concepts.filter (fun c => c.nameRange.start.offset = o) = [] ∧
    d.references.filter (fun r => r.range.start.offset = o) = []

private theorem filter_eq_nil {α : Type} {p : α → Bool} {l : List α} (h : l.countP p = 0) :
    l.filter p = [] := by
  rw [List.countP_eq_length_filter] at h
  exact List.length_eq_zero_iff.mp h

private theorem exists_filter_eq {α : Type} {p : α → Bool} {l : List α} (h : l.countP p = 1) :
    ∃ a ∈ l, p a ∧ l.filter p = [a] := by
  rw [List.countP_eq_length_filter] at h
  obtain ⟨a, ha⟩ := List.length_eq_one_iff.mp h
  have hm : a ∈ l.filter p := by simp [ha]
  exact ⟨a, (List.mem_filter.mp hm).1, (List.mem_filter.mp hm).2, ha⟩

private theorem countP_concepts_of_not_markerAt {source : String} {o : Nat}
    (h : ¬ MarkerAt source.toList o) :
    (parse source).concepts.countP (fun c => startOf c.marker = o) = 0 := by
  rw [List.countP_eq_zero]
  intro c hc
  simp only [decide_eq_true_eq]
  exact fun he => h (markerAt_iff_mem_concepts.mpr ⟨c, hc, he⟩)

private theorem countP_preamble_of_marker {source : String} {o m : Nat}
    (hm : MarkerAt source.toList m) (hle : m ≤ o) :
    (Reference.allIn .start (preamble source.toList)).countP (fun r => startOf r = o) = 0 := by
  rw [List.countP_eq_zero]
  intro r hr
  have := startOf_preamble hr
  have := le_of_mem_starts (mem_markers_iff.mpr hm)
  simp only [decide_eq_true_eq]
  omega

private theorem classified_marker {source : String} {o : Nat} {name : List Char}
    (h : MentionAt source.toList o name) (hl : LineStartAt source.toList o) :
    (∃ c, (parse source).concepts.filter (fun c => c.nameRange.start.offset = o) = [c] ∧
      c.marker = referenceAt source.toList o name) ∧
    (parse source).references.filter (fun r => r.range.start.offset = o) = [] := by
  have h1 := mention_once h
  have hm : MarkerAt source.toList o := ⟨hl, name, h⟩
  obtain ⟨c, hc, he⟩ := markerAt_iff_mem_concepts.mp hm
  have hpos : 0 < (parse source).concepts.countP (fun c => startOf c.marker = o) :=
    List.countP_pos_iff.mpr ⟨c, hc, by simpa using he⟩
  obtain ⟨d, hd, ho, hf⟩ := exists_filter_eq (show
    (parse source).concepts.countP (fun c => startOf c.marker = o) = 1 by omega)
  refine ⟨⟨d, hf, eq_referenceAt h ?_ (by simpa using ho)⟩, filter_eq_nil ?_⟩
  · rw [allIn_parse, List.mem_append, List.mem_flatMap]
    exact .inr ⟨d, hd, List.mem_cons_self⟩
  · change (parse source).references.countP (fun r => startOf r = o) = 0
    omega

private theorem classified_reference {source : String} {o m : Nat} {name : List Char}
    (h : MentionAt source.toList o name) (hl : ¬ LineStartAt source.toList o)
    (hm : MarkerAt source.toList m) (hlt : m < o) :
    (parse source).concepts.filter (fun c => c.nameRange.start.offset = o) = [] ∧
    (parse source).references.filter (fun r => r.range.start.offset = o) =
      [referenceAt source.toList o name] ∧
    ∃ c ∈ (parse source).concepts, referenceAt source.toList o name ∈ c.references ∧
      LastMarkerBefore source.toList o c.nameRange.start.offset := by
  have h1 := mention_once h
  have hp := countP_preamble_of_marker hm (Nat.le_of_lt hlt)
  have hc := countP_concepts_of_not_markerAt fun hm : MarkerAt source.toList o => hl hm.1
  obtain ⟨r, hr, ho, hf⟩ := exists_filter_eq (show
    (parse source).references.countP (fun r => startOf r = o) = 1 by omega)
  have he := eq_referenceAt h (mem_allIn_of_mem_references hr) (by simpa using ho)
  subst he
  obtain ⟨c, hc', hrc⟩ := List.mem_flatMap.mp hr
  refine ⟨filter_eq_nil hc, hf, c, hc', hrc, markerAt_iff_mem_concepts.mpr ⟨c, hc', rfl⟩, ?_, ?_⟩
  · rw [← (referenceAt_offsets h).1]
    exact marker_lt_reference hc' hrc
  · intro m' hm' hlt'
    obtain ⟨c'', hc'', rfl⟩ := markerAt_iff_mem_concepts.mp hm'
    rw [← (referenceAt_offsets h).1] at hlt'
    exact marker_le_of_lt_reference hc' hc'' hrc hlt'

private theorem classified_outside {source : String} {o : Nat}
    (hm : ∀ m, MarkerAt source.toList m → o < m) :
    (parse source).concepts.filter (fun c => c.nameRange.start.offset = o) = [] ∧
    (parse source).references.filter (fun r => r.range.start.offset = o) = [] := by
  refine ⟨filter_eq_nil (countP_concepts_of_not_markerAt fun h => ?_), ?_⟩
  · exact Nat.lt_irrefl o (hm o h)
  · rw [List.filter_eq_nil_iff]
    intro r hr
    obtain ⟨c, hc, hrc⟩ := List.mem_flatMap.mp hr
    have hlt := marker_lt_reference hc hrc
    have hgt := hm _ (markerAt_iff_mem_concepts.mpr ⟨c, hc, rfl⟩)
    simp only [startOf, decide_eq_true_eq] at hlt ⊢
    omega

private theorem mention_of_reference {source : String} {r : Reference}
    (h : r ∈ (parse source).references) :
    ∃ o name, MentionAt source.toList o name ∧ ¬ LineStartAt source.toList o ∧
      (∃ m, MarkerAt source.toList m ∧ m < o) ∧ r = referenceAt source.toList o name := by
  obtain ⟨o, name, hm, rfl⟩ := mem_allIn_start_iff.mp (mem_allIn_of_mem_references h)
  refine ⟨o, name, hm, fun hl => ?_, ?_, rfl⟩
  · have hn := List.filter_eq_nil_iff.mp (classified_marker hm hl).2 _ h
    exact hn (by simpa using (referenceAt_offsets hm).1)
  · obtain ⟨c, hc, hr⟩ := List.mem_flatMap.mp h
    have hlt := marker_lt_reference hc hr
    rw [startOf, startOf, (referenceAt_offsets hm).1] at hlt
    exact ⟨_, markerAt_iff_mem_concepts.mpr ⟨c, hc, rfl⟩, hlt⟩

private theorem mention_of_concept {source : String} {c : Concept}
    (h : c ∈ (parse source).concepts) :
    ∃ o name, MarkerAt source.toList o ∧ MentionAt source.toList o name ∧
      c.marker = referenceAt source.toList o name := by
  have hm : MarkerAt source.toList (startOf c.marker) := markerAt_iff_mem_concepts.mpr ⟨c, h, rfl⟩
  obtain ⟨hl, name, hn⟩ := hm
  refine ⟨_, name, ⟨hl, name, hn⟩, hn, eq_referenceAt hn ?_ rfl⟩
  rw [allIn_parse, List.mem_append, List.mem_flatMap]
  exact .inr ⟨c, h, List.mem_cons_self⟩

theorem references_sorted (source : String) :
    (parse source).references.Pairwise fun r r' =>
      r.range.start.offset < r'.range.start.offset ∧
        r.range.stop.offset ≤ r'.range.start.offset := by
  obtain ⟨hin, hout⟩ := List.pairwise_flatMap.mp (groups_sorted source)
  refine List.pairwise_flatMap.mpr ⟨?_, ?_⟩
  · intro c hc
    exact (List.pairwise_cons.mp (hin c hc)).2
  · apply hout.imp
    intro c c' h r hr r' hr'
    exact h r (List.mem_cons_of_mem _ hr) r' (List.mem_cons_of_mem _ hr')

/-- Each mention of a text is one marker, one reference or nothing, by where it stands; markers and
references are nothing but mentions; and references stand in order without overlap. -/
theorem mentions_classified (source : String) :
    (∀ o name, MentionAt source.toList o name →
      Classified source.toList (parse source) o name) ∧
    (∀ c ∈ (parse source).concepts, ∃ o name, MarkerAt source.toList o ∧
      MentionAt source.toList o name ∧ c.marker = referenceAt source.toList o name) ∧
    (∀ r ∈ (parse source).references, ∃ o name, MentionAt source.toList o name ∧
      ¬ LineStartAt source.toList o ∧ (∃ m, MarkerAt source.toList m ∧ m < o) ∧
      r = referenceAt source.toList o name) ∧
    (parse source).references.Pairwise fun r r' =>
      r.range.start.offset < r'.range.start.offset ∧
        r.range.stop.offset ≤ r'.range.start.offset := by
  refine ⟨fun o name h => ?_, fun c hc => mention_of_concept hc,
    fun r hr => mention_of_reference hr, references_sorted source⟩
  constructor
  · exact classified_marker h
  · rintro hl ⟨m, hm, hlt⟩
    exact classified_reference h hl hm hlt
  · exact classified_outside

/-- Two mentions that touch are two references, and a mention before the first marker is none. -/
example : (parse "see @Pet\n@Cat, @A@Bé").references.map
    (fun r => (r.name, r.range.start.offset, r.range.stop.offset)) =
      [("A", 15, 17), ("B", 17, 19)] := by
  decide

end Document

end ConceptMarkup
