import Mathlib.Data.Nat.PSub
import ConceptMarkup.Proofs.LineSearch
import ConceptMarkup.Proofs.Sections

/-! Prose read by byte offsets. A body is cut out of its text, the blanks before its prose are
measured in bytes, and the ends of every range are looked up in the line index. A cut can miss the
boundaries, a difference can be negative, a range can be reversed; for a body that stands in the
text none of this happens, and what is read is its block at its place. -/
namespace ConceptMarkup
open Text

/-- The range between two places, unless it is reversed. -/
def Range.forward? (start stop : Position) : Option Range :=
  if start.offset ≤ stop.offset then some ⟨start, stop⟩ else none

theorem Range.forward?_after (p : Position) (cs : List Char) :
    forward? p (p.after cs) = some ⟨p, p.after cs⟩ := by
  rw [forward?, if_pos]
  rw [Position.offset_after]
  exact Nat.le_add_right _ _

namespace LineIndex

def range? (index : LineIndex) (start stop : Nat) : Option Range := do
  Range.forward? (← index.locate? start) (← index.locate? stop)

private theorem locate?_byteLength (as bs : List Char) :
    (ofText (as ++ bs)).locate? (byteLength as) = some (Position.start.after as) := by
  rw [locate?_eq, positionAt_byteLength]

private theorem range?_middle (as bs cs : List Char) :
    (ofText (as ++ bs ++ cs)).range? (byteLength as) (byteLength (as ++ bs)) =
      some ⟨Position.start.after as, Position.start.after (as ++ bs)⟩ := by
  have hs := locate?_byteLength as (bs ++ cs)
  rw [← List.append_assoc] at hs
  simp only [range?, hs, locate?_byteLength, Option.bind_eq_bind, Option.bind_some,
    Position.after_append, Range.forward?_after]

end LineIndex

def Reference.locateAll? (index : LineIndex) (offset : Nat) : List Char → Option (List Reference)
  | [] => some []
  | c :: cs =>
    match mentionAt? (c :: cs) with
    | some name => do
      let range ← index.range? offset (offset + byteLength ('@' :: name))
      let rest ← locateAll? index (offset + c.utf8Size) cs
      some (⟨String.ofList name, range⟩ :: rest)
    | none => locateAll? index (offset + c.utf8Size) cs

private theorem Reference.locateAll?_eq (before text after : List Char) :
    locateAll? (.ofText (before ++ text ++ after)) (byteLength before) text =
      some (allIn (Position.start.after before) text) := by
  induction text generalizing before with
  | nil => rfl
  | cons c cs ih =>
    have hs : before ++ c :: cs ++ after = before ++ [c] ++ cs ++ after := by simp
    have hi := ih (before ++ [c])
    rw [← hs, byteLength_append, byteLength_cons, byteLength_nil, Nat.add_zero,
      Position.after_append, Position.after_cons, Position.after_nil] at hi
    rw [locateAll?, allIn]
    cases hm : mentionAt? (c :: cs) with
    | none => exact hi
    | some name =>
      obtain ⟨rest, he, -, -⟩ := mention_split hm
      have hr := LineIndex.range?_middle before ('@' :: name) (rest ++ after)
      rw [List.append_assoc before, List.cons_append, ← List.append_assoc, ← List.cons_append, ← he,
        ← List.append_assoc, byteLength_append, Position.after_append] at hr
      simp only [hr, hi, Option.bind_eq_bind, Option.bind_some, Position.after_cons]

namespace Prose

/-- The block of prose between two byte offsets of a text, if the text there is not blank. -/
def between? (index : LineIndex) (start stop : Nat) : Option (Option Prose) := do
  let body ← slice? start stop index.text
  let text := trim body
  if text.isEmpty then some none
  else
    let lead ← Nat.psub (byteLength body) (byteLength (body.dropWhile isBlank))
    let range ← index.range? (start + lead) (start + lead + byteLength text)
    let references ← Reference.locateAll? index (start + lead) text
    some (some ⟨String.ofList text, references, range⟩)

/-- No step fails between two boundaries, and what is read is the block of the body there. -/
theorem between?_eq (before body after : List Char) :
    between? (.ofText (before ++ body ++ after)) (byteLength before) (byteLength (before ++ body)) =
      some (ofBody? (Position.start.after before) body) := by
  have hslice := slice?_middle before body after
  have htext : (LineIndex.ofText (before ++ body ++ after)).text = before ++ body ++ after := rfl
  by_cases hb : Blank body
  · simp only [between?, htext, hslice, trim_eq_nil_iff.mpr hb, ofBody?_of_blank _ hb,
      Option.bind_eq_bind, Option.bind_some, List.isEmpty_nil, ↓reduceIte]
  · obtain ⟨lead, text, trail, h, hn⟩ := exists_trimmed_of_not_blank hb
    obtain ⟨hl, ht⟩ := h.eq_of_ne_nil hn
    have hne : text.isEmpty = false := by simpa using hn
    have hdrop : body.dropWhile isBlank = text ++ trail := by
      have hw := List.takeWhile_append_dropWhile (p := isBlank) (l := body)
      rw [← hl] at hw
      refine List.append_cancel_left (hw.trans ?_)
      rw [h.whole, List.append_assoc]
    have hsub : Nat.psub (byteLength body) (byteLength (body.dropWhile isBlank)) =
        some (byteLength lead) := by
      rw [Nat.psub_eq_some, hdrop, h.whole]
      simp only [byteLength_append]
      omega
    have hs : before ++ body ++ after = before ++ lead ++ text ++ (trail ++ after) := by
      rw [h.whole]
      simp only [List.append_assoc]
    have hrange := LineIndex.range?_middle (before ++ lead) text (trail ++ after)
    have hrefs := Reference.locateAll?_eq (before ++ lead) text (trail ++ after)
    rw [← hs] at hrange hrefs
    rw [byteLength_append _ text] at hrange
    rw [byteLength_append] at hrange hrefs
    simp only [between?, htext, hslice, hne, hsub, ← ht, hrange, hrefs, ofBody?_of_trimmed _ h hn,
      Option.bind_eq_bind, Option.bind_some, Bool.false_eq_true, ↓reduceIte, Position.after_append]

end Prose

end ConceptMarkup
