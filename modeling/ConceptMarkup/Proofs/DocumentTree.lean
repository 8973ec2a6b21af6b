import Mathlib.Data.List.Chain
import ConceptMarkup.Proofs.PlaceOrder
import ConceptMarkup.Proofs.SectionReading

/-! A parsed document as a tree of ranges. Every range is one of the text and has under it what its
node says, the ranges of parts lie in those of the whole, and concepts stand on lines of their
own. -/
namespace ConceptMarkup
open Text

/-- A block of prose in a text: its range has its text under it and holds its references, which
stand in order and apart, each with its sign and name under it. -/
structure Prose.WellFormed (cs : List Char) (b : Prose) : Prop where
  spans : b.range.Spans cs b.text.toList
  references : ∀ r ∈ b.references,
    r.range.Spans cs ('@' :: r.name.toList) ∧ b.range.Holds r.range
  ordered : b.references.Pairwise fun r r' =>
    r.range.start.offset < r'.range.start.offset ∧ r.range.stop.offset ≤ r'.range.start.offset

/-- A concept in a text: its range holds its marker and, after that, its prose. -/
structure Concept.WellFormed (cs : List Char) (c : Concept) : Prop where
  spans : ∃ text, c.range.Spans cs text
  marker : c.nameRange.Spans cs ('@' :: c.name.toList)
  holds_marker : c.range.Holds c.nameRange
  prose : ∀ b ∈ c.prose,
    b.WellFormed cs ∧ c.range.Holds b.range ∧ c.nameRange.stop.offset ≤ b.range.start.offset

/-- A document of a text: it spans the whole text and holds its concepts, each of which ends on a
line before those that the concepts after it begin on. -/
structure Document.WellFormed (cs : List Char) (d : Document) : Prop where
  spans : d.range.Spans cs cs
  start : d.range.start.offset = 0
  stop : d.range.stop.offset = byteLength cs
  concepts : ∀ c ∈ d.concepts, c.WellFormed cs ∧ d.range.Holds c.range
  apart : d.concepts.Pairwise fun c c' => c.range.stop.line < c'.range.start.line

def Prose.ranges (b : Prose) : List Range := b.range :: b.references.map (·.range)

def Concept.ranges (c : Concept) : List Range :=
  c.range :: c.nameRange :: c.prose.flatMap (·.ranges)

def Document.ranges (d : Document) : List Range := d.range :: d.concepts.flatMap (·.ranges)

namespace Reference

private theorem spans_of_mem_allIn (before text after : List Char) {r : Reference}
    (h : r ∈ allIn (Position.start.after before) text) :
    r.range.Spans (before ++ text ++ after) ('@' :: r.name.toList) ∧
      (⟨Position.start.after before, Position.start.after (before ++ text)⟩ : Range).Holds
        r.range := by
  obtain ⟨pre, rest, name, rfl, hm, rfl⟩ := mem_allIn_iff.mp h
  obtain ⟨more, rfl, -, -⟩ := mention_split hm
  have hs := Range.spans_middle (before ++ pre) ('@' :: name) (more ++ after)
  have hh := Range.holds_after (Position.start.after before) pre ('@' :: name) more
  simp only [← Position.after_append, List.append_assoc, List.cons_append] at hs hh
  simp only [ofMention, ← Position.after_append, String.toList_ofList, List.append_assoc,
    List.cons_append]
  exact ⟨hs, hh⟩

private theorem allIn_sorted (p : Position) (cs : List Char) :
    (allIn p cs).Pairwise fun r r' => r.range.start.offset < r'.range.start.offset ∧
      r.range.stop.offset ≤ r'.range.start.offset := by
  apply (allIn_ordered p cs).imp_of_mem
  intro r r' hr _ hle
  obtain ⟨before, _, name, -, -, rfl⟩ := mem_allIn_iff.mp hr
  obtain ⟨ho, hz⟩ := ofMention_offsets (p.after before) name
  exact ⟨by omega, hle⟩

end Reference

private theorem Prose.WellFormed.spans_of_mem_ranges {cs : List Char} {b : Prose}
    (h : b.WellFormed cs)
    {r : Range} (hr : r ∈ b.ranges) : ∃ text, r.Spans cs text := by
  rcases List.mem_cons.mp hr with rfl | hr
  · exact ⟨_, h.spans⟩
  · obtain ⟨reference, hm, rfl⟩ := List.mem_map.mp hr
    exact ⟨_, (h.references reference hm).1⟩

private theorem Prose.wellFormed_middle (before text after : List Char) :
    WellFormed (before ++ text ++ after)
      ⟨String.ofList text, Reference.allIn (Position.start.after before) text,
        Position.start.after before, Position.start.after (before ++ text)⟩ := by
  refine ⟨?_, ?_, Reference.allIn_sorted _ text⟩
  · rw [String.toList_ofList]
    exact Range.spans_middle before text after
  · intro r hr
    exact Reference.spans_of_mem_allIn before text after hr

namespace Concept

private theorem WellFormed.spans_of_mem_ranges {cs : List Char} {c : Concept} (h : c.WellFormed cs)
    {r : Range} (hr : r ∈ c.ranges) : ∃ text, r.Spans cs text := by
  rcases List.mem_cons.mp hr with rfl | hr
  · exact h.spans
  · rcases List.mem_cons.mp hr with rfl | hr
    · exact ⟨_, h.marker⟩
    · obtain ⟨b, hb, hr⟩ := List.mem_flatMap.mp hr
      exact (h.prose b hb).1.spans_of_mem_ranges hr

theorem WellFormed.reference {cs : List Char} {c : Concept} (h : c.WellFormed cs) {r : Reference}
    (hr : r ∈ c.references) :
    r.range.Spans cs ('@' :: r.name.toList) ∧ c.range.Holds r.range := by
  obtain ⟨b, hb, hr⟩ := List.mem_flatMap.mp hr
  obtain ⟨hw, hh, -⟩ := h.prose b hb
  obtain ⟨hs, hi⟩ := hw.references r hr
  exact ⟨hs, hh.trans hi⟩

/-- References begin after the marker of their concept. -/
theorem WellFormed.marker_lt {cs : List Char} {c : Concept} (h : c.WellFormed cs) {r : Reference}
    (hr : r ∈ c.references) : c.nameRange.start.offset < r.range.start.offset := by
  obtain ⟨b, hb, hr⟩ := List.mem_flatMap.mp hr
  obtain ⟨hw, -, hle⟩ := h.prose b hb
  have hlt := h.marker.start_lt_stop (List.cons_ne_nil _ _)
  have hge := (hw.references r hr).2.start_offset
  omega

theorem ofBody_of_blank (p : Position) (name : List Char) {body : List Char} (h : Blank body) :
    ofBody p name body =
      ⟨String.ofList name, ⟨p, p.after ('@' :: name)⟩, [], p, p.after ('@' :: name)⟩ := by
  rw [ofBody, Prose.ofBody?_of_blank _ h]
  rfl

theorem ofBody_of_trimmed (p : Position) (name : List Char) {body lead text trail : List Char}
    (h : Trimmed body lead text trail) (hn : text ≠ []) :
    ofBody p name body =
      let q := p.after ('@' :: name ++ lead)
      ⟨String.ofList name, ⟨p, p.after ('@' :: name)⟩,
        [⟨String.ofList text, Reference.allIn q text, q, q.after text⟩], p, q.after text⟩ := by
  rw [ofBody, Prose.ofBody?_of_trimmed _ h hn, Position.after_append]
  rfl

private theorem wellFormed_ofBody (before name body after : List Char) :
    (ofBody (Position.start.after before) name body).WellFormed
      (before ++ '@' :: name ++ body ++ after) := by
  have hm := Range.spans_middle before ('@' :: name) (body ++ after)
  rw [← List.append_assoc] at hm
  by_cases hb : Blank body
  · have hh := Range.holds_after (Position.start.after before) [] ('@' :: name) []
    simp only [List.nil_append, List.append_nil, ← Position.after_append] at hh
    rw [ofBody_of_blank _ name hb, ← Position.after_append]
    refine ⟨⟨_, hm⟩, ?_, hh, fun b hb => absurd hb List.not_mem_nil⟩
    rw [String.toList_ofList]
    exact hm
  · obtain ⟨lead, text, trail, h, hn⟩ := exists_trimmed_of_not_blank hb
    have hc : before ++ '@' :: name ++ lead ++ text ++ (trail ++ after) =
        before ++ '@' :: name ++ body ++ after := by
      rw [h.whole]
      simp only [List.append_assoc]
    have hw := Range.spans_middle before ('@' :: name ++ lead ++ text) (trail ++ after)
    have hp := Prose.wellFormed_middle (before ++ '@' :: name ++ lead) text (trail ++ after)
    have hh := Range.holds_after (Position.start.after before) [] ('@' :: name) (lead ++ text)
    have hi := Range.holds_after (Position.start.after before) ('@' :: name ++ lead) text []
    rw [hc] at hp
    simp only [← List.append_assoc before, hc] at hw
    simp only [List.nil_append, List.append_nil, ← Position.after_append, ← List.append_assoc,
      Position.after_nil] at hh hi
    rw [ofBody_of_trimmed _ name h hn]
    simp only [← Position.after_append, ← List.append_assoc before]
    refine ⟨⟨_, hw⟩, ?_, hh, ?_⟩
    · rw [String.toList_ofList]
      exact hm
    · intro b hb
      rw [List.mem_singleton.mp hb]
      refine ⟨hp, hi, ?_⟩
      simp only [Position.offset_after, byteLength_append]
      omega

private theorem wellFormed_ofTexts (before : List Char) {css : List (List Char)}
    (h : ∀ sec ∈ css, ∃ name, mentionAt? sec = some name) :
    ∀ c ∈ ofTexts (Position.start.after before) css, c.WellFormed (before ++ css.flatten) := by
  induction css generalizing before with
  | nil => exact fun c hc => absurd hc List.not_mem_nil
  | cons sec css ih =>
    obtain ⟨name, hn⟩ := h sec List.mem_cons_self
    obtain ⟨body, rfl, -, -⟩ := mention_split hn
    intro c hc
    rw [ofTexts, ofText_eq _ hn, ← Position.after_append] at hc
    rw [List.flatten_cons, ← List.append_assoc]
    rcases List.mem_cons.mp hc with rfl | hc
    · have := wellFormed_ofBody before name body css.flatten
      rwa [List.append_assoc before, List.cons_append] at this
    · exact ih _ (fun s hs => h s (List.mem_cons_of_mem _ hs)) c hc

/-- A concept ends with what is shown of its section; the blanks after that are not part of it. -/
theorem range_ofText (p : Position) {sec name : List Char} (hm : mentionAt? sec = some name) :
    ∃ shown trail, sec = shown ++ trail ∧ Blank trail ∧ (∀ c ∈ shown.getLast?, ¬ isBlank c) ∧
      (ofText p sec).range = ⟨p, p.after shown⟩ := by
  obtain ⟨body, rfl, hn, -⟩ := mention_split hm
  rw [ofText_eq p hm]
  by_cases hb : Blank body
  · refine ⟨'@' :: name, body, rfl, hb, ?_, by rw [ofBody_of_blank p name hb]⟩
    intro c hc hblank
    rcases List.mem_cons.mp (List.mem_of_getLast? hc) with rfl | hc
    · exact absurd hblank (by decide)
    · exact not_isNameChar_of_isBlank hblank (hn c hc)
  · obtain ⟨lead, text, trail, h, ht⟩ := exists_trimmed_of_not_blank hb
    refine ⟨'@' :: name ++ lead ++ text, trail, ?_, h.trail_blank, ?_, ?_⟩
    · rw [h.whole]
      simp only [List.append_assoc, List.cons_append]
    · intro c hc
      rw [List.getLast?_append_of_ne_nil _ ht] at hc
      exact h.last c hc
    · rw [ofBody_of_trimmed p name h ht, Position.after_append p _ text]

private theorem start_of_mem_ofTexts {p : Position} {css : List (List Char)} {c : Concept}
    (h : c ∈ ofTexts p css) : p.line ≤ c.range.start.line := by
  induction css generalizing p with
  | nil => cases h
  | cons sec css ih =>
    rcases List.mem_cons.mp h with rfl | h
    · exact Nat.le_refl _
    · have := ih h
      rw [Position.line_after] at this
      omega

private theorem ofTexts_apart (p : Position) {css : List (List Char)}
    (h : ∀ sec ∈ css, ∃ name, mentionAt? sec = some name)
    (hc : css.IsChain fun sec _ => sec.getLast? = some '\n') :
    (ofTexts p css).Pairwise fun c c' => c.range.stop.line < c'.range.start.line := by
  induction css generalizing p with
  | nil => exact .nil
  | cons sec css ih =>
    obtain ⟨hl, ht⟩ := List.isChain_cons.mp hc
    refine .cons ?_ (ih _ (fun s hs => h s (List.mem_cons_of_mem _ hs)) ht)
    intro c hm
    obtain ⟨name, hn⟩ := h sec List.mem_cons_self
    obtain ⟨shown, trail, rfl, hb, hs, hr⟩ := range_ofText p hn
    have hle := start_of_mem_ofTexts hm
    have hlf : (shown ++ trail).getLast? = some '\n' := by
      cases css with
      | nil => cases hm
      | cons sec css => exact hl sec rfl
    have hmem : '\n' ∈ trail := by
      cases trail using List.reverseRecOn with
      | nil =>
        rw [List.append_nil] at hlf
        exact absurd (by decide) (hs '\n' hlf)
      | append_singleton trail c =>
        rw [← List.append_assoc, List.getLast?_concat] at hlf
        simp [Option.some.inj hlf]
    rw [Position.after_append] at hle
    rw [hr]
    exact Nat.lt_of_lt_of_le ((p.after shown).line_lt_after hmem) hle

end Concept

namespace Text

private theorem sections_closed (fresh : Bool) (cs : List Char) :
    ((sections fresh cs).2.IsChain fun sec _ => sec.getLast? = some '\n') ∧
      ((sections fresh cs).2 ≠ [] →
        (sections fresh cs).1 = [] ∧ fresh ∨ (sections fresh cs).1.getLast? = some '\n') := by
  induction cs generalizing fresh with
  | nil => exact ⟨.nil, fun h => absurd rfl h⟩
  | cons c cs ih =>
    obtain ⟨hc, hl⟩ := ih (c = '\n')
    have hlast (h : (sections (c = '\n') cs).2 ≠ []) :
        (c :: (sections (c = '\n') cs).1).getLast? = some '\n' := by
      rcases hl h with ⟨he, hc⟩ | hl
      · rw [he, List.getLast?_singleton, of_decide_eq_true hc]
      · rw [List.getLast?_cons, hl]
        rfl
    rw [sections]
    split
    · next hm =>
      refine ⟨List.isChain_cons.mpr ⟨?_, hc⟩, fun _ => .inl ⟨rfl, (Bool.and_eq_true_iff.mp hm).1⟩⟩
      intro sec hs
      exact hlast (List.ne_nil_of_mem (List.mem_of_head? hs))
    · exact ⟨hc, fun h => .inr (hlast h)⟩

private theorem marked_closed (cs : List Char) :
    (marked cs).IsChain fun sec _ => sec.getLast? = some '\n' :=
  (sections_closed true cs).1

end Text

namespace Document

theorem wellFormed_parse (source : String) : (parse source).WellFormed source.toList := by
  have hm := marked_mention source.toList
  have hs := Range.spans_middle [] source.toList []
  have hc := Concept.wellFormed_ofTexts (preamble source.toList) hm
  rw [List.append_nil, List.nil_append, Position.after_nil] at hs
  rw [preamble_append_marked, ← parse_concepts] at hc
  rw [← parse_range] at hs
  refine ⟨hs, rfl, ?_, ?_, ?_⟩
  · rw [parse_range, Position.offset_start_after]
  · intro c h
    obtain ⟨text, ht⟩ := (hc c h).spans
    rw [parse_range]
    exact ⟨hc c h, ht.holds⟩
  · rw [parse_concepts]
    exact Concept.ofTexts_apart _ hm (marked_closed source.toList)

/-- A concept begins with its marker. -/
theorem start_of_mem_parse {source : String} {c : Concept} (h : c ∈ (parse source).concepts) :
    c.range.start = c.nameRange.start := by
  rw [parse_concepts] at h
  obtain ⟨p, name, body, rfl⟩ := Concept.exists_ofBody_of_mem_ofTexts h
  rfl

private theorem WellFormed.spans_of_mem_ranges {cs : List Char} {d : Document} (h : d.WellFormed cs)
    {r : Range} (hr : r ∈ d.ranges) : ∃ text, r.Spans cs text := by
  rcases List.mem_cons.mp hr with rfl | hr
  · exact ⟨cs, h.spans⟩
  · obtain ⟨c, hc, hr⟩ := List.mem_flatMap.mp hr
    exact (h.concepts c hc).1.spans_of_mem_ranges hr

theorem WellFormed.ranges_nodup {cs : List Char} {d : Document} (h : d.WellFormed cs) :
    (d.concepts.map (·.range)).Nodup := by
  apply List.pairwise_map.mpr
  apply h.apart.imp_of_mem
  intro c c' hc _ hlt he
  obtain ⟨hs, hz⟩ := (h.concepts c hc).1.holds_marker.start
  have hle := Position.line_le_of_le (Position.le_trans hs hz)
  rw [← he] at hlt
  omega

/-- No place lies in two concepts, whether or not it is a place of the text. -/
theorem WellFormed.not_mem_two {cs : List Char} {d : Document} (h : d.WellFormed cs)
    (p : Position) : d.concepts.Pairwise fun c c' => ¬ (p ∈ c.range ∧ p ∈ c'.range) := by
  apply h.apart.imp
  rintro c c' hlt ⟨⟨-, hle⟩, ⟨hle', -⟩⟩
  have := Position.line_le_of_le hle
  have := Position.line_le_of_le hle'
  omega

/-- A parsed document is a tree of forward ranges of its text, each with what its node says under
it, nested and in order, and none of its concepts shares a place with another. -/
theorem parse_tree (source : String) :
    (parse source).WellFormed source.toList ∧
      ∀ p, (parse source).concepts.Pairwise fun c c' => ¬ (p ∈ c.range ∧ p ∈ c'.range) :=
  have h := wellFormed_parse source
  ⟨h, h.not_mem_two⟩

/-- Line and column decide on what lies in a range as byte offsets do: for the range between any two
places of a text, and so for every range of the document of a text, and any place of the text. -/
theorem mem_range_iff_between_offsets (source : String) :
    (∀ i j k, BoundaryAt source.toList i → BoundaryAt source.toList j →
      BoundaryAt source.toList k →
        ((LineIndex.ofText source.toList).positionAt k ∈
          (LineIndex.ofText source.toList).range i j ↔ i ≤ k ∧ k ≤ j)) ∧
      ∀ r ∈ (parse source).ranges, ∀ p : Position, p.In source.toList →
        (p ∈ r ↔ r.start.offset ≤ p.offset ∧ p.offset ≤ r.stop.offset) := by
  refine ⟨fun i j k => LineIndex.mem_range_iff, fun r hr p hp => ?_⟩
  obtain ⟨text, hs⟩ := (wellFormed_parse source).spans_of_mem_ranges hr
  exact Range.mem_iff_offset hs hp

end Document

end ConceptMarkup
