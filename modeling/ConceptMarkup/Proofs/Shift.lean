import ConceptMarkup.Proofs.PlaceOrder
import ConceptMarkup.Proofs.Sections

/-! Moving a text down by whole lines. Columns stay, lines and offsets grow by constants, and all
that is read off a text moves with the place at which it begins. -/
namespace ConceptMarkup
open Text

namespace Position

/-- The place `lines` lines and `bytes` bytes further on, in the same column. -/
def shift (lines bytes : Nat) (p : Position) : Position :=
  ⟨p.line + lines, p.column, p.offset + bytes⟩

theorem shift_advance (lines bytes : Nat) (p : Position) (c : Char) :
    (p.shift lines bytes).advance c = (p.advance c).shift lines bytes := by
  by_cases hc : c = '\n'
  · simp only [advance, shift, hc, ↓reduceIte, mk.injEq, true_and]
    omega
  · simp only [advance, shift, hc, ↓reduceIte, mk.injEq, true_and]
    omega

theorem shift_after (lines bytes : Nat) (p : Position) (cs : List Char) :
    (p.shift lines bytes).after cs = (p.after cs).shift lines bytes := by
  induction cs generalizing p with
  | nil => rfl
  | cons c cs ih => rw [after_cons, after_cons, shift_advance, ih]

/-- After a line feed counting starts again, as many lines and bytes further on as came before. -/
theorem start_after_lineFeed (cs : List Char) :
    start.after (cs ++ ['\n']) = start.shift (cs.count '\n' + 1) (byteLength cs + 1) := by
  have hl := line_after start cs
  have ho := offset_after start cs
  have hz : '\n'.utf8Size = 1 := rfl
  rw [after_append, after_cons, after_nil]
  simp only [advance, ↓reduceIte, shift, hl, ho, hz, mk.injEq]
  exact ⟨by omega, rfl, by omega⟩

/-- At the start of a line only lines and bytes have been counted. -/
theorem start_after_of_atLineStart {cs : List Char} (h : AtLineStart cs) :
    start.after cs = start.shift (cs.count '\n') (byteLength cs) := by
  rcases h with rfl | h
  · rfl
  · obtain ⟨ds, rfl⟩ := List.getLast?_eq_some_iff.mp h
    rw [start_after_lineFeed, List.count_append, List.count_singleton_self, byteLength_append]
    rfl

end Position

def Range.shift (lines bytes : Nat) (r : Range) : Range :=
  ⟨r.start.shift lines bytes, r.stop.shift lines bytes⟩

def Reference.shift (lines bytes : Nat) (r : Reference) : Reference :=
  { r with range := r.range.shift lines bytes }

def Prose.shift (lines bytes : Nat) (b : Prose) : Prose :=
  { b with
    references := b.references.map (.shift lines bytes)
    range := b.range.shift lines bytes }

def Concept.shift (lines bytes : Nat) (c : Concept) : Concept :=
  { c with
    nameRange := c.nameRange.shift lines bytes
    prose := c.prose.map (.shift lines bytes)
    range := c.range.shift lines bytes }

def Document.shift (lines bytes : Nat) (d : Document) : Document :=
  { concepts := d.concepts.map (.shift lines bytes)
    range := d.range.shift lines bytes }

variable (lines bytes : Nat)

private theorem Reference.ofMention_shift (p : Position) (name : List Char) :
    ofMention (p.shift lines bytes) name = (ofMention p name).shift lines bytes := by
  simp only [ofMention, shift, Range.shift, Position.shift_after]

private theorem Reference.allIn_shift (p : Position) (cs : List Char) :
    allIn (p.shift lines bytes) cs = (allIn p cs).map (.shift lines bytes) := by
  induction cs generalizing p with
  | nil => rfl
  | cons c cs ih =>
    rw [allIn_cons, allIn_cons, Position.shift_advance, ih, List.map_append, List.map_map]
    congr 2
    funext name
    exact ofMention_shift lines bytes p name

private theorem Prose.ofBody?_shift (p : Position) (body : List Char) :
    ofBody? (p.shift lines bytes) body = (ofBody? p body).map (.shift lines bytes) := by
  by_cases hb : Blank body
  · rw [ofBody?_of_blank _ hb, ofBody?_of_blank _ hb]
    rfl
  · obtain ⟨lead, text, trail, h, hn⟩ := exists_trimmed_of_not_blank hb
    rw [ofBody?_of_trimmed _ h hn, ofBody?_of_trimmed _ h hn]
    simp only [Option.map_some, shift, Range.shift, Position.shift_after, Reference.allIn_shift]

namespace Concept

private theorem ofBody_shift (p : Position) (name body : List Char) :
    ofBody (p.shift lines bytes) name body = (ofBody p name body).shift lines bytes := by
  simp only [ofBody, shift, Range.shift, Position.shift_after, Prose.ofBody?_shift]
  cases Prose.ofBody? (p.after ('@' :: name)) body <;> rfl

theorem ofText_shift (p : Position) (cs : List Char) :
    ofText (p.shift lines bytes) cs = (ofText p cs).shift lines bytes := by
  rw [ofText, ofText, ofBody_shift]

theorem ofTexts_shift (p : Position) (css : List (List Char)) :
    ofTexts (p.shift lines bytes) css = (ofTexts p css).map (.shift lines bytes) := by
  induction css generalizing p with
  | nil => rfl
  | cons cs css ih =>
    rw [ofTexts, ofTexts, Position.shift_after, ih, ofText_shift, List.map_cons]

end Concept

end ConceptMarkup
