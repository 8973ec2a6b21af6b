import Mathlib.Data.List.Forall2
import ConceptMarkup.Proofs.SectionReading

/-! A text with other line ends. A carriage return before each line feed continues no name, is
trimmed where a line feed is, and has no column of its own after the line feed, so that a document
keeps its names and, by line and column, its places. Only the byte offsets move. -/
namespace ConceptMarkup
open Text
open List (Forall₂)

namespace Text

/-- The text with a carriage return before each line feed. -/
def withReturns (cs : List Char) : List Char :=
  cs.flatMap fun c => if c = '\n' then ['\r', '\n'] else [c]

/-- The source in which each line feed has become a carriage return and a line feed. -/
def crlf (source : String) : String := String.ofList (withReturns source.toList)

@[simp] theorem toList_crlf (source : String) : (crlf source).toList = withReturns source.toList :=
  String.toList_ofList

theorem withReturns_cons_lineFeed (cs : List Char) :
    withReturns ('\n' :: cs) = '\r' :: '\n' :: withReturns cs := rfl

private theorem withReturns_cons {c : Char} (cs : List Char) (h : c ≠ '\n') :
    withReturns (c :: cs) = c :: withReturns cs := by
  rw [withReturns, List.flatMap_cons, if_neg h]
  rfl

theorem withReturns_append (as bs : List Char) :
    withReturns (as ++ bs) = withReturns as ++ withReturns bs :=
  List.flatMap_append

theorem withReturns_concat {c : Char} (cs : List Char) (h : c ≠ '\n') :
    withReturns (cs ++ [c]) = withReturns cs ++ [c] := by
  rw [withReturns_append, withReturns_cons [] h]
  rfl

/-- One line has no other line end. -/
theorem withReturns_line {line : List Char} (h : '\n' ∉ line) : withReturns line = line := by
  induction line with
  | nil => rfl
  | cons c line ih =>
    rw [List.mem_cons, not_or] at h
    rw [withReturns_cons line (Ne.symm h.1), ih h.2]

private theorem withReturns_eq_nil_iff {cs : List Char} : withReturns cs = [] ↔ cs = [] := by
  constructor
  · intro h
    cases cs with
    | nil => rfl
    | cons c cs =>
      by_cases hc : c = '\n'
      · rw [hc] at h
        cases h
      · rw [withReturns_cons cs hc] at h
        cases h
  · rintro rfl
    rfl

theorem count_withReturns (cs : List Char) : (withReturns cs).count '\n' = cs.count '\n' := by
  induction cs with
  | nil => rfl
  | cons c cs ih =>
    by_cases hc : c = '\n'
    · rw [hc, withReturns_cons_lineFeed, List.count_cons_of_ne (by decide), List.count_cons_self,
        List.count_cons_self, ih]
    · rw [withReturns_cons cs hc, List.count_cons_of_ne hc, List.count_cons_of_ne hc, ih]

private theorem blank_withReturns {cs : List Char} : Blank (withReturns cs) ↔ Blank cs := by
  induction cs with
  | nil => rfl
  | cons c cs ih =>
    by_cases hc : c = '\n'
    · subst hc
      simp only [Blank, withReturns_cons_lineFeed, List.forall_mem_cons] at ih ⊢
      rw [ih]
      exact and_iff_right (by decide)
    · simp only [Blank, withReturns_cons cs hc, List.forall_mem_cons] at ih ⊢
      rw [ih]

private theorem Trimmed.withReturns {cs lead text trail : List Char}
    (h : Trimmed cs lead text trail) :
    Trimmed (withReturns cs) (withReturns lead) (withReturns text) (withReturns trail) := by
  constructor
  · rw [h.whole, withReturns_append, withReturns_append]
  · exact blank_withReturns.mpr h.lead_blank
  · exact blank_withReturns.mpr h.trail_blank
  · cases text with
    | nil => simp [Text.withReturns]
    | cons c text =>
      have hc : ¬ isBlank c := h.head c rfl
      have hn : c ≠ '\n' := by
        rintro rfl
        exact hc (by decide)
      rw [withReturns_cons text hn]
      intro d hd
      cases hd
      exact hc
  · cases text using List.reverseRecOn with
    | nil => simp [Text.withReturns]
    | append_singleton text c =>
      have hc : ¬ isBlank c := h.last c (by simp)
      have hn : c ≠ '\n' := by
        rintro rfl
        exact hc (by decide)
      have hl : (Text.withReturns text ++ [c]).getLast? = some c := List.getLast?_concat
      rw [withReturns_concat text hn, hl]
      intro d hd
      cases hd
      exact hc

end Text

private theorem takeWhile_withReturns (cs : List Char) :
    (withReturns cs).takeWhile isNameChar = cs.takeWhile isNameChar := by
  induction cs with
  | nil => rfl
  | cons c cs ih =>
    by_cases hc : c = '\n'
    · rw [hc]
      rfl
    · rw [withReturns_cons cs hc, List.takeWhile_cons, List.takeWhile_cons, ih]

private theorem mentionAt?_withReturns (cs : List Char) :
    mentionAt? (withReturns cs) = mentionAt? cs := by
  cases cs with
  | nil => rfl
  | cons c cs =>
    by_cases hc : c = '\n'
    · rw [hc]
      rfl
    by_cases ha : c = '@'
    · subst ha
      rw [withReturns_cons cs hc]
      cases cs with
      | nil => rfl
      | cons d cs =>
        by_cases hd : d = '\n'
        · rw [hd]
          rfl
        · rw [withReturns_cons cs hd, mentionAt?, mentionAt?, takeWhile_withReturns]
    · rw [withReturns_cons cs hc, mentionAt?_cons_of_ne ha, mentionAt?_cons_of_ne ha]

private theorem Text.sections_withReturns (fresh : Bool) (cs : List Char) :
    sections fresh (withReturns cs) =
      (withReturns (sections fresh cs).1, (sections fresh cs).2.map withReturns) := by
  induction cs generalizing fresh with
  | nil => rfl
  | cons c cs ih =>
    by_cases hc : c = '\n'
    · subst hc
      rw [withReturns_cons_lineFeed]
      simp [sections, mentionAt?, ih, withReturns_cons_lineFeed]
    · have hm := mentionAt?_withReturns (c :: cs)
      rw [withReturns_cons cs hc] at hm
      rw [withReturns_cons cs hc, sections, sections, hm, ih]
      split
      · rw [List.map_cons, withReturns_cons _ hc]
        rfl
      · rw [withReturns_cons _ hc]

/-- Two places with one line and one column. -/
structure Position.Alike (p q : Position) : Prop where
  line : p.line = q.line
  column : p.column = q.column

namespace Position.Alike

variable {p q : Position}

theorem refl (p : Position) : p.Alike p := ⟨rfl, rfl⟩

private theorem advance (h : p.Alike q) (c : Char) : (p.advance c).Alike (q.advance c) := by
  rw [Position.advance, Position.advance]
  split
  · exact ⟨congrArg (· + 1) h.line, rfl⟩
  · exact ⟨h.line, congrArg (· + 1) h.column⟩

private theorem after (h : p.Alike q) (cs : List Char) : (p.after cs).Alike (q.after cs) := by
  induction cs generalizing p q with
  | nil => exact h
  | cons c cs ih => exact ih (h.advance c)

private theorem advance_return (h : p.Alike q) :
    (p.advance '\n').Alike ((q.advance '\r').advance '\n') :=
  ⟨congrArg (· + 1) h.line, rfl⟩

theorem after_withReturns (h : p.Alike q) (cs : List Char) :
    (p.after cs).Alike (q.after (withReturns cs)) := by
  induction cs generalizing p q with
  | nil => exact h
  | cons c cs ih =>
    by_cases hc : c = '\n'
    · rw [hc, withReturns_cons_lineFeed]
      exact ih h.advance_return
    · rw [withReturns_cons cs hc]
      exact ih (h.advance c)

end Position.Alike

structure Range.Alike (r r' : Range) : Prop where
  start : r.start.Alike r'.start
  stop : r.stop.Alike r'.stop

structure Reference.Alike (r r' : Reference) : Prop where
  name : r.name = r'.name
  range : r.range.Alike r'.range

structure Prose.Alike (b b' : Prose) : Prop where
  text : b'.text.toList = withReturns b.text.toList
  references : Forall₂ Reference.Alike b.references b'.references
  range : b.range.Alike b'.range

structure Concept.Alike (c c' : Concept) : Prop where
  name : c.name = c'.name
  nameRange : c.nameRange.Alike c'.nameRange
  prose : Forall₂ Prose.Alike c.prose c'.prose
  range : c.range.Alike c'.range

/-- Two documents that differ in their line ends: concept by concept, block by block and reference
by reference, names are equal and places have the same lines and columns. -/
structure Document.Alike (d d' : Document) : Prop where
  concepts : Forall₂ Concept.Alike d.concepts d'.concepts
  range : d.range.Alike d'.range

variable {p q : Position}

private theorem Reference.allIn_withReturns (h : p.Alike q) (cs : List Char) :
    Forall₂ Reference.Alike (allIn p cs) (allIn q (withReturns cs)) := by
  induction cs generalizing p q with
  | nil => exact .nil
  | cons c cs ih =>
    by_cases hc : c = '\n'
    · subst hc
      exact ih h.advance_return
    · have hm := mentionAt?_withReturns (c :: cs)
      rw [withReturns_cons cs hc] at hm
      rw [withReturns_cons cs hc, allIn_cons, allIn_cons, hm]
      refine List.rel_append ?_ (ih (h.advance c))
      cases mentionAt? (c :: cs) with
      | none => exact .nil
      | some name => exact .cons ⟨rfl, h, h.after ('@' :: name)⟩ .nil

private theorem Prose.ofBody?_withReturns (h : p.Alike q) (body : List Char) :
    Option.Rel Prose.Alike (ofBody? p body) (ofBody? q (withReturns body)) := by
  by_cases hb : Blank body
  · rw [ofBody?_of_blank p hb, ofBody?_of_blank q (blank_withReturns.mpr hb)]
    exact .none
  · obtain ⟨lead, text, trail, ht, hn⟩ := exists_trimmed_of_not_blank hb
    have hl := h.after_withReturns lead
    rw [ofBody?_of_trimmed p ht hn,
      ofBody?_of_trimmed q ht.withReturns (withReturns_eq_nil_iff.not.mpr hn)]
    refine .some ⟨?_, Reference.allIn_withReturns hl text, hl, hl.after_withReturns text⟩
    rw [String.toList_ofList, String.toList_ofList]

namespace Concept

private theorem ofBody_withReturns (h : p.Alike q) (name body : List Char) :
    (ofBody p name body).Alike (ofBody q name (withReturns body)) := by
  have hq := h.after ('@' :: name)
  have hb := Prose.ofBody?_withReturns hq body
  rw [ofBody, ofBody]
  generalize Prose.ofBody? (p.after ('@' :: name)) body = block,
    Prose.ofBody? (q.after ('@' :: name)) (withReturns body) = block' at hb ⊢
  cases hb with
  | none => exact ⟨rfl, ⟨h, hq⟩, .nil, h, hq⟩
  | some hb => exact ⟨rfl, ⟨h, hq⟩, .cons hb .nil, h, hb.range.stop⟩

private theorem ofText_withReturns (h : p.Alike q) {sec name : List Char}
    (hm : mentionAt? sec = some name) : (ofText p sec).Alike (ofText q (withReturns sec)) := by
  obtain ⟨body, rfl, hn, -⟩ := mention_split hm
  have hname : '\n' ∉ '@' :: name := by
    rw [List.mem_cons, not_or]
    exact ⟨by decide, fun hc => absurd (hn _ hc) (by decide)⟩
  have hw : withReturns ('@' :: (name ++ body)) = '@' :: (name ++ withReturns body) := by
    rw [← List.cons_append, withReturns_append, withReturns_line hname, List.cons_append]
  have hm' := mentionAt?_withReturns ('@' :: (name ++ body))
  rw [hw, hm] at hm'
  rw [hw, ofText_eq p hm, ofText_eq q hm']
  exact ofBody_withReturns h name body

private theorem ofTexts_withReturns (h : p.Alike q) {css : List (List Char)}
    (hm : ∀ sec ∈ css, ∃ name, mentionAt? sec = some name) :
    Forall₂ Concept.Alike (ofTexts p css) (ofTexts q (css.map withReturns)) := by
  induction css generalizing p q with
  | nil => exact .nil
  | cons sec css ih =>
    obtain ⟨name, hn⟩ := hm sec List.mem_cons_self
    refine .cons (ofText_withReturns h hn) (ih (h.after_withReturns sec) ?_)
    intro s hs
    exact hm s (List.mem_cons_of_mem _ hs)

end Concept

namespace Document

/-- The document of a text with other line ends. -/
theorem alike_parse_crlf (source : String) : (parse source).Alike (parse (crlf source)) := by
  have hs := sections_withReturns true source.toList
  have hp := (Position.Alike.refl .start).after_withReturns (preamble source.toList)
  constructor
  · rw [parse_concepts, parse_concepts, toList_crlf, preamble, preamble, marked, marked, hs]
    exact Concept.ofTexts_withReturns hp (marked_mention source.toList)
  · rw [parse_range, parse_range, toList_crlf]
    exact ⟨.refl _, (Position.Alike.refl .start).after_withReturns source.toList⟩

end Document

end ConceptMarkup
