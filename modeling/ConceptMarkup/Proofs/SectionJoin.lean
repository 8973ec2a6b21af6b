import ConceptMarkup.Proofs.MentionClasses
import ConceptMarkup.Proofs.Shift

/-! Texts joined at a line feed. The line feed and what follows it up to the next marker go to the
last section of the first text, or to its preamble if it has no section; trimming drops them there
if they are blank. -/
namespace ConceptMarkup
open Text

namespace Text

/-- Appends `tail` to the last of a text and the sections after it. -/
def extend (tail leading : List Char) : List (List Char) → List Char × List (List Char)
  | [] => (leading ++ tail, [])
  | sec :: rest => (leading, (extend tail sec rest).1 :: (extend tail sec rest).2)

private theorem extend_cons (tail : List Char) (c : Char) (leading : List Char)
    (secs : List (List Char)) : extend tail (c :: leading) secs =
      (c :: (extend tail leading secs).1, (extend tail leading secs).2) := by
  cases secs <;> rfl

private theorem extend_join (tail leading : List Char) (secs : List (List Char)) :
    (extend tail leading secs).1 ++ (extend tail leading secs).2.flatten =
      leading ++ secs.flatten ++ tail := by
  induction secs generalizing leading with
  | nil => simp [extend]
  | cons sec secs ih =>
    rw [extend, List.flatten_cons, ih]
    simp only [List.flatten_cons, List.append_assoc]

private theorem sections_append_lineFeed (fresh : Bool) (as bs : List Char) :
    sections fresh (as ++ '\n' :: bs) =
      let e := extend ('\n' :: preamble bs) (sections fresh as).1 (sections fresh as).2
      (e.1, e.2 ++ marked bs) := by
  induction as generalizing fresh with
  | nil =>
    have hm : mentionAt? ('\n' :: bs) = none := mentionAt?_lineFeed [] bs
    simp [sections, extend, preamble, marked, hm]
  | cons a as ih =>
    have hm : mentionAt? (a :: (as ++ '\n' :: bs)) = mentionAt? (a :: as) :=
      mentionAt?_lineFeed (a :: as) bs
    rw [List.cons_append, sections, ih, hm, sections]
    split
    · rw [extend, extend_cons]
      rfl
    · rw [extend_cons]

private theorem preamble_append_lineFeed (as bs : List Char) : preamble (as ++ '\n' :: bs) =
    (extend ('\n' :: preamble bs) (preamble as) (marked as)).1 := by
  rw [preamble, sections_append_lineFeed]
  rfl

private theorem marked_append_lineFeed (as bs : List Char) : marked (as ++ '\n' :: bs) =
    (extend ('\n' :: preamble bs) (preamble as) (marked as)).2 ++ marked bs := by
  rw [marked, sections_append_lineFeed]
  rfl

end Text

namespace Concept

/-- Blanks at the end of a section are not part of its concept. -/
theorem ofText_append_blank (p : Position) {sec tail name : List Char}
    (hm : mentionAt? sec = some name) (ht : Blank tail) :
    ofText p (sec ++ tail) = ofText p sec := by
  obtain ⟨body, rfl, -, -⟩ := mention_split hm
  have hstop : ∀ b ∈ tail.head?, ¬ isNameChar b := by
    intro b hb
    exact not_isNameChar_of_isBlank (ht b (List.mem_of_head? hb))
  have hm' := hm
  rw [← mentionAt?_append (List.cons_ne_nil _ _) hstop, List.cons_append, List.append_assoc] at hm'
  have hb := Prose.ofBody?_append (p.after ('@' :: name)) [] body tail .nil ht
  rw [List.nil_append, Position.after_nil] at hb
  rw [List.cons_append, List.append_assoc, ofText_eq p hm', ofText_eq p hm, ofBody, ofBody, hb]

private theorem ofTexts_extend (p : Position) {tail sec : List Char} {secs : List (List Char)}
    (h : ∀ s ∈ sec :: secs, ∃ name, mentionAt? s = some name) (ht : Blank tail) :
    ofTexts p ((extend tail sec secs).1 :: (extend tail sec secs).2) = ofTexts p (sec :: secs) := by
  induction secs generalizing p sec with
  | nil =>
    obtain ⟨name, hm⟩ := h sec List.mem_cons_self
    rw [extend, ofTexts, ofTexts, ofText_append_blank p hm ht]
    rfl
  | cons sec' secs ih =>
    have hrest := ih (p.after sec) fun s hs => h s (List.mem_cons_of_mem _ hs)
    rw [extend, ofTexts, hrest]
    rfl

private theorem ofTexts_append (p : Position) (css dss : List (List Char)) :
    ofTexts p (css ++ dss) = ofTexts p css ++ ofTexts (p.after css.flatten) dss := by
  induction css generalizing p with
  | nil => rfl
  | cons cs css ih =>
    rw [List.cons_append, ofTexts, ih, ofTexts, List.flatten_cons, Position.after_append,
      List.cons_append]

end Concept

namespace Document

private theorem ofTexts_extend_parse (source : String) {tail : List Char} (ht : Blank tail) :
    let e := extend tail (preamble source.toList) (marked source.toList)
    Concept.ofTexts (Position.start.after e.1) e.2 = (parse source).concepts := by
  have h := marked_mention source.toList
  rw [parse_concepts]
  cases hs : marked source.toList with
  | nil => rfl
  | cons sec secs => exact Concept.ofTexts_extend _ (hs ▸ h) ht

private theorem preamble_of_marker {cs : List Char}
    (h : cs = [] ∨ ∃ c rest, cs = '@' :: c :: rest ∧ c.isUpper) : preamble cs = [] := by
  rcases h with rfl | ⟨c, rest, rfl, hc⟩
  · rfl
  · simp [preamble, sections, mentionAt?, hc]

private theorem concepts_of_not_markerAt {source : String} (h : ∀ o, ¬ MarkerAt source.toList o) :
    (parse source).concepts = [] := by
  rw [List.eq_nil_iff_forall_not_mem]
  intro c hc
  exact h _ (markerAt_iff_mem_concepts.mpr ⟨c, hc, rfl⟩)

theorem concepts_append_lineFeed (a b : String) (hb : preamble b.toList = []) :
    (parse (a ++ "\n" ++ b)).concepts = (parse a).concepts ++ (parse b).concepts.map
      (.shift (a.toList.count '\n' + 1) (byteLength a.toList + 1)) := by
  have ht : Blank ['\n'] := List.forall_mem_singleton.mpr (by decide)
  have ha := ofTexts_extend_parse a ht
  have hj := extend_join ['\n'] (preamble a.toList) (marked a.toList)
  have hw := preamble_append_marked a.toList
  have hl : (a ++ "\n" ++ b).toList = a.toList ++ '\n' :: b.toList := by simp
  rw [parse_concepts, hl, preamble_append_lineFeed, marked_append_lineFeed, hb,
    Concept.ofTexts_append, ha, ← Position.after_append, hj, hw, Position.start_after_lineFeed,
    Concept.ofTexts_shift, parse_concepts b, hb, Position.after_nil]

/-- Parsing is local to sections: where a text goes on, after a line feed, with a text that is empty
or begins with a marker, the concepts of the first are unchanged, and those of the second are moved
down by the lines and bytes before them. A first text without a marker only moves the second. -/
theorem parse_append_lineFeed (a b : String)
    (hb : b.toList = [] ∨ ∃ c rest, b.toList = '@' :: c :: rest ∧ c.isUpper) :
    let lines := a.toList.count '\n' + 1
    let bytes := byteLength a.toList + 1
    (parse (a ++ "\n" ++ b)).concepts =
        (parse a).concepts ++ (parse b).concepts.map (.shift lines bytes) ∧
      (parse (a ++ "\n" ++ b)).range = ⟨.start, (parse b).range.stop.shift lines bytes⟩ ∧
      ((∀ o, ¬ MarkerAt a.toList o) →
        (parse (a ++ "\n" ++ b)).concepts = (parse b).concepts.map (.shift lines bytes)) := by
  have hl : (a ++ "\n" ++ b).toList = a.toList ++ ['\n'] ++ b.toList := by simp
  have hc := concepts_append_lineFeed a b (preamble_of_marker hb)
  refine ⟨hc, ?_, fun ha => ?_⟩
  · rw [parse_range, parse_range, hl, Position.after_append, Position.start_after_lineFeed,
      Position.shift_after]
  · rw [hc, concepts_of_not_markerAt ha, List.nil_append]

/-- The blank line at the end of the first text is trimmed with the line feed after it. -/
theorem parse_append_blank_line :
    "@Dog".toList = ['@', 'D', 'o', 'g'] ∧
      (parse ("@Cat meets @Dog\n" ++ "\n" ++ "@Dog")).concepts =
        (parse "@Cat meets @Dog\n").concepts ++ (parse "@Dog").concepts.map (.shift 2 17) :=
  have h : "@Dog".toList = ['@', 'D', 'o', 'g'] := by decide
  ⟨h, (parse_append_lineFeed "@Cat meets @Dog\n" "@Dog" (.inr ⟨'D', ['o', 'g'], h, by decide⟩)).1⟩

end Document

end ConceptMarkup
