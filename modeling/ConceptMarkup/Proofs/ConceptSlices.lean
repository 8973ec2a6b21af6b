import ConceptMarkup.Proofs.DocumentTree
import ConceptMarkup.Proofs.SectionJoin

/-! Concepts cut out of their text. A concept begins a line, ends with what is shown of it and has
no marker but its own; so its range, taken for a whole text, is read as the same concept, and
nothing of what stands around it is missed. -/
namespace ConceptMarkup
open Text

namespace Text

private theorem isSome_mentionAt?_of_isPrefix {as cs : List Char} (h : as <+: cs)
    (hm : (mentionAt? as).isSome) : (mentionAt? cs).isSome := by
  obtain ⟨bs, rfl⟩ := h
  obtain ⟨name, hn⟩ := Option.isSome_iff_exists.mp hm
  obtain ⟨after, rfl, ⟨c, hc, hu⟩, -⟩ := mentionAt?_eq_some_iff.mp hn
  have hc' : c ∈ (after ++ bs).head? := by
    rw [List.head?_append, hc]
    rfl
  exact Option.isSome_iff_exists.mpr ⟨_, mentionAt?_eq_some_iff.mpr ⟨_, rfl, ⟨c, hc', hu⟩, rfl⟩⟩

private theorem sections_of_isPrefix_lead {fresh : Bool} {cs as : List Char}
    (h : as <+: (sections fresh cs).1) : sections fresh as = (as, []) := by
  induction cs generalizing fresh as with
  | nil =>
    rw [List.prefix_nil.mp h]
    rfl
  | cons c cs ih =>
    rw [sections] at h
    split at h
    · rw [List.prefix_nil.mp h]
      rfl
    · next hm =>
      cases as with
      | nil => rfl
      | cons a as =>
        obtain ⟨rfl, has⟩ := List.cons_prefix_cons.mp h
        have hlead : (sections (a = '\n') cs).1 <+: cs := ⟨_, sections_join (a = '\n') cs⟩
        have hpre : a :: as <+: a :: cs := List.cons_prefix_cons.mpr ⟨rfl, has.trans hlead⟩
        have hn : ¬ (fresh && (mentionAt? (a :: as)).isSome) = true := by
          rw [Bool.and_eq_true] at hm ⊢
          exact fun hs => hm ⟨hs.1, isSome_mentionAt?_of_isPrefix hpre hs.2⟩
        rw [sections, if_neg hn, ih has]

private theorem sections_of_isPrefix_section {fresh : Bool} {cs sec as : List Char}
    (hs : sec ∈ (sections fresh cs).2) (h : as <+: sec) : sections false as = (as, []) := by
  induction cs generalizing fresh with
  | nil => cases hs
  | cons c cs ih =>
    rw [sections] at hs
    split at hs
    · rcases List.mem_cons.mp hs with rfl | hs
      · cases as with
        | nil => rfl
        | cons a as =>
          obtain ⟨rfl, has⟩ := List.cons_prefix_cons.mp h
          rw [sections, sections_of_isPrefix_lead has]
          rfl
      · exact ih hs
    · exact ih hs

private theorem sections_of_mention {cs name : List Char} (hm : mentionAt? cs = some name)
    (h : sections false cs = (cs, [])) : sections true cs = ([], [cs]) := by
  cases cs with
  | nil => cases hm
  | cons c cs =>
    rw [sections] at h ⊢
    simpa [hm] using h

end Text

namespace Concept

private theorem exists_shown (p : Position) {sec name : List Char}
    (hm : mentionAt? sec = some name) :
    ∃ shown trail, sec = shown ++ trail ∧ mentionAt? shown = some name ∧
      ofText p sec = ofText p shown ∧ (ofText p sec).range = ⟨p, p.after shown⟩ := by
  obtain ⟨shown, trail, rfl, ht, -, hr⟩ := range_ofText p hm
  have hn : shown ≠ [] := by
    rintro rfl
    have hb := ht '@' (List.mem_of_head? (head_of_mentionAt? hm))
    exact absurd hb (by decide)
  have hm' : mentionAt? shown = some name := by
    rwa [mentionAt?_append hn] at hm
    intro b hb
    exact not_isNameChar_of_isBlank (ht b (List.mem_of_head? hb))
  exact ⟨shown, trail, rfl, hm', ofText_append_blank p hm' ht, hr⟩

end Concept

namespace Document

private theorem parse_of_section {cs name : List Char} (hm : mentionAt? cs = some name)
    (h : sections false cs = (cs, [])) :
    parse (String.ofList cs) = ⟨[.ofText .start cs], .start, Position.start.after cs⟩ := by
  have hs := sections_of_mention hm h
  have hc := parse_concepts (String.ofList cs)
  have hr := parse_range (String.ofList cs)
  rw [String.toList_ofList] at hc hr
  rw [preamble, marked, hs] at hc
  cases hd : parse (String.ofList cs)
  rw [hd] at hc hr
  exact (mk.injEq ..).mpr ⟨hc, hr⟩

private theorem exists_section_of_mem_parse {source : String} {c : Concept}
    (h : c ∈ (parse source).concepts) : ∃ before sec after,
      source.toList = before ++ sec ++ after ∧ AtLineStart before ∧ sec ∈ marked source.toList ∧
        c = .ofText (Position.start.after before) sec := by
  have hl := (markerAt_iff_mem_concepts.mpr ⟨c, h, rfl⟩).1
  rw [parse_concepts] at h
  obtain ⟨secs, sec, secs', he, rfl⟩ := Concept.exists_text_of_mem_ofTexts h
  rw [← Position.after_append] at hl ⊢
  have hw := preamble_append_marked source.toList
  rw [he, List.flatten_append, List.flatten_cons, ← List.append_assoc, ← List.append_assoc] at hw
  refine ⟨preamble source.toList ++ secs.flatten, sec, secs'.flatten, hw.symm, ?_, ?_, rfl⟩
  · obtain ⟨before, rest, hb, ho, hs⟩ := hl
    have ho' : byteLength before = byteLength (preamble source.toList ++ secs.flatten) :=
      ho.trans (Position.offset_start_after _)
    rw [← hw, List.append_assoc] at hb
    rwa [(append_inj_of_byteLength hb ho'.symm).1]
  · rw [he]
    exact List.mem_append_right _ List.mem_cons_self

/-- A concept is self-contained. What its range covers, parsed as a text of its own and moved down
by the lines and bytes before the concept, is a document of that range whose one concept it is. -/
theorem parse_slice {source : String} {c : Concept} (h : c ∈ (parse source).concepts) :
    ∃ text, slice? c.range.start.offset c.range.stop.offset source.toList = some text ∧
      (parse (String.ofList text)).shift (c.range.start.line - 1) c.range.start.offset =
        ⟨[c], c.range⟩ := by
  obtain ⟨before, sec, after, he, hl, hs, rfl⟩ := exists_section_of_mem_parse h
  obtain ⟨name, hm⟩ := marked_mention source.toList sec hs
  obtain ⟨shown, trail, rfl, hm', ht, hr⟩ :=
    Concept.exists_shown (Position.start.after before) hm
  have hone := sections_of_isPrefix_section hs (List.prefix_append shown trail)
  have hp := Position.start_after_of_atLineStart hl
  have hline : (Position.start.after before).line - 1 = before.count '\n' := by
    rw [Position.line_after]
    exact Nat.add_sub_cancel_left _ _
  refine ⟨shown, ?_, ?_⟩
  · have hslice := slice?_middle before shown (trail ++ after)
    rw [hr, he, ← List.append_assoc, List.append_assoc _ trail]
    simpa only [← Position.after_append, Position.offset_start_after] using hslice
  · rw [parse_of_section hm' hone, hr, ht]
    simp only [shift, Range.shift, hline, Position.offset_start_after, ← Position.shift_after, ← hp,
      ← Concept.ofText_shift, List.map_singleton]

/-- The second line of three: the return and the blank line after its prose are not part of it. -/
theorem parse_slice_before_return :
    let source := "é\n@Cat 𝄞 @Dog\r\n\n@Dog"
    let q : Position := ⟨2, 8, 13⟩
    let stop : Position := ⟨2, 12, 17⟩
    let c : Concept := ⟨"Cat", ⟨⟨2, 1, 3⟩, ⟨2, 5, 7⟩⟩,
      [⟨"𝄞 @Dog", [⟨"Dog", q, stop⟩], ⟨2, 6, 8⟩, stop⟩], ⟨2, 1, 3⟩, stop⟩
    c ∈ (parse source).concepts ∧ slice? 3 17 source.toList = some "@Cat 𝄞 @Dog".toList ∧
      (parse "@Cat 𝄞 @Dog").shift 1 3 = ⟨[c], c.range⟩ := by
  intro source q stop c
  have hc : c ∈ (parse source).concepts := by decide
  have hs : slice? 3 17 source.toList = some "@Cat 𝄞 @Dog".toList := by decide
  obtain ⟨text, ht, hd⟩ := parse_slice hc
  obtain rfl : text = "@Cat 𝄞 @Dog".toList := Option.some.inj (ht.symm.trans hs)
  rw [String.ofList_toList] at hd
  exact ⟨hc, hs, hd⟩

end Document

end ConceptMarkup
