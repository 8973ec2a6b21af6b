import Mathlib.Data.List.Induction
import ConceptMarkup.LineIndex
import ConceptMarkup.Proofs.Trimming

/-! Boundaries of a text and the places at them. Counting characters from the start and looking a
byte offset up in the line index are two ways to a place; at every boundary they agree. -/
namespace ConceptMarkup

namespace Text

theorem byteLength_eq_zero_iff {cs : List Char} : byteLength cs = 0 ↔ cs = [] := by
  cases cs with
  | nil => simp
  | cons c cs =>
    have hc := c.utf8Size_pos
    simp only [byteLength_cons, reduceCtorEq, iff_false]
    omega

theorem byteLength_pos {cs : List Char} (h : cs ≠ []) : 0 < byteLength cs :=
  Nat.pos_of_ne_zero fun hz => h (byteLength_eq_zero_iff.mp hz)

/-- Of two cuts of a text the one at the greater offset goes on from the other. -/
theorem exists_append_of_byteLength_le {as bs as' bs' : List Char} (h : as ++ bs = as' ++ bs')
    (hl : byteLength as ≤ byteLength as') : ∃ ms, as' = as ++ ms ∧ bs = ms ++ bs' := by
  rcases List.append_eq_append_iff.mp h with ⟨ms, hm⟩ | ⟨ms, rfl, rfl⟩
  · exact ⟨ms, hm⟩
  · rw [byteLength_append] at hl
    have hm : ms = [] := byteLength_eq_zero_iff.mp (by omega)
    exact ⟨[], by simp [hm], by simp [hm]⟩

/-- A boundary is known by its byte offset: two cuts of a text at one offset are one cut. -/
theorem append_inj_of_byteLength {as bs as' bs' : List Char} (h : as ++ bs = as' ++ bs')
    (hl : byteLength as = byteLength as') : as = as' ∧ bs = bs' := by
  obtain ⟨ms, rfl, rfl⟩ := exists_append_of_byteLength_le h (Nat.le_of_eq hl)
  rw [byteLength_append] at hl
  have hm : ms = [] := byteLength_eq_zero_iff.mp (by omega)
  simp [hm]

theorem fitting_byteLength (as bs : List Char) : fitting (byteLength as) (as ++ bs) = as := by
  induction as with
  | nil =>
    cases bs with
    | nil => rfl
    | cons b bs =>
      have hb := b.utf8Size_pos
      simp only [byteLength_nil, List.nil_append, fitting]
      rw [if_neg (by omega)]
  | cons c as ih => simp [fitting, ih]

/-- A text is cut between two of its boundaries. -/
theorem slice?_middle (as bs cs : List Char) :
    slice? (byteLength as) (byteLength (as ++ bs)) (as ++ bs ++ cs) = some bs := by
  rw [byteLength_append, List.append_assoc]
  exact slice?_append as bs cs

end Text

namespace LineIndex
open Text

theorem lineStarts_append (o : Nat) (as bs : List Char) :
    lineStarts o (as ++ bs) = lineStarts o as ++ lineStarts (o + byteLength as) bs := by
  induction as generalizing o with
  | nil => simp [lineStarts]
  | cons c as ih =>
    simp only [List.cons_append, lineStarts, ih, byteLength_cons, Nat.add_assoc]
    split <;> rfl

theorem length_lineStarts (o : Nat) (cs : List Char) :
    (lineStarts o cs).length = cs.count '\n' := by
  induction cs generalizing o with
  | nil => rfl
  | cons c cs ih =>
    by_cases hc : c = '\n'
    · simp [lineStarts, hc, ih]
    · simp [lineStarts, hc, ih]

/-- The lines of a text that are complete before a boundary lead up to the start of the next. -/
theorem lineStart?_closed (done rest : List Char) (h : done = [] ∨ done.getLast? = some '\n') :
    (ofText (done ++ rest)).lineStart? (done.count '\n' + 1) = some (byteLength done) := by
  rcases h with rfl | h
  · rfl
  · obtain ⟨ds, rfl⟩ := List.getLast?_eq_some_iff.mp h
    have hs : (ofText (ds ++ ['\n'] ++ rest)).starts =
        lineStarts 0 ds ++ (byteLength ds + 1) :: lineStarts (byteLength ds + 1) rest := by
      rw [List.append_assoc, ofText, lineStarts_append, Nat.zero_add]
      rfl
    rw [List.count_append, List.count_singleton_self, lineStart?, hs, ← length_lineStarts 0 ds,
      List.getElem?_append_right (Nat.le_refl _), Nat.sub_self, byteLength_append]
    rfl

theorem lineStarts_bounds {o n : Nat} {cs : List Char} (h : n ∈ lineStarts o cs) :
    o < n ∧ n ≤ o + byteLength cs := by
  induction cs generalizing o with
  | nil => simp [lineStarts] at h
  | cons c cs ih =>
    have hc := c.utf8Size_pos
    have tail (ht : n ∈ lineStarts (o + c.utf8Size) cs) : o < n ∧ n ≤ o + byteLength (c :: cs) := by
      have := ih ht
      rw [byteLength_cons]
      omega
    simp only [lineStarts] at h
    split at h
    · rcases List.mem_cons.mp h with rfl | ht
      · rw [byteLength_cons]
        omega
      · exact tail ht
    · exact tail h

private theorem takeWhile_starts (as bs : List Char) :
    (ofText (as ++ bs)).starts.takeWhile (· ≤ byteLength as) = lineStarts 0 as := by
  have hle : ∀ n ∈ lineStarts 0 as, decide (n ≤ byteLength as) = true := by
    intro n hn
    have := lineStarts_bounds hn
    simp only [decide_eq_true_eq]
    omega
  rw [show (ofText (as ++ bs)).starts = lineStarts 0 (as ++ bs) from rfl, lineStarts_append,
    takeWhile_append_stop hle]
  intro n hn
  have := lineStarts_bounds (List.mem_of_head? hn)
  simp only [decide_eq_true_eq]
  omega

private theorem lines_and_part (as : List Char) :
    ∃ done part, as = done ++ part ∧ (lineStarts 0 as).getLast?.getD 0 = byteLength done ∧
      Position.start.after as =
        ⟨(lineStarts 0 as).length + 1, part.length + 1, byteLength as⟩ := by
  induction as using List.reverseRecOn with
  | nil => exact ⟨[], [], rfl, rfl, rfl⟩
  | append_singleton as c ih =>
    obtain ⟨done, part, he, hs, hp⟩ := ih
    rw [lineStarts_append, Position.after_append, hp]
    by_cases hc : c = '\n'
    · subst hc
      refine ⟨as ++ ['\n'], [], by simp, ?_, ?_⟩
      · simp [lineStarts]
      · simp [lineStarts, Position.advance]
    · refine ⟨done, part ++ [c], by rw [he, List.append_assoc], ?_, ?_⟩
      · simpa [lineStarts, hc] using hs
      · simp [lineStarts, Position.advance, hc]

/-- At a boundary the line index finds the place that counting from the start reaches. -/
theorem positionAt_byteLength (as bs : List Char) :
    (ofText (as ++ bs)).positionAt (byteLength as) = Position.start.after as := by
  obtain ⟨done, part, he, hs, hp⟩ := lines_and_part as
  have hb : (ofText (as ++ bs)).boundary (byteLength as) = byteLength as := by
    rw [boundary, show (ofText (as ++ bs)).text = as ++ bs from rfl, fitting_byteLength]
  have hl : (ofText (as ++ bs)).lineStartBefore (byteLength as) = byteLength done := by
    rw [lineStartBefore, takeWhile_starts, hs]
  have hc : (ofText (as ++ bs)).linePart? (byteLength as) = some part := by
    rw [linePart?, hl, show (ofText (as ++ bs)).text = as ++ bs from rfl, he]
    exact slice?_middle done part bs
  simp only [positionAt, hb, hc, takeWhile_starts, hp, Option.elim_some]

def range (index : LineIndex) (start stop : Nat) : Range :=
  ⟨index.positionAt start, index.positionAt stop⟩

theorem range_middle (as bs cs : List Char) :
    (ofText (as ++ bs ++ cs)).range (byteLength as) (byteLength (as ++ bs)) =
      ⟨Position.start.after as, (Position.start.after as).after bs⟩ := by
  rw [range, positionAt_byteLength, ← Position.after_append]
  congr 1
  rw [List.append_assoc]
  exact positionAt_byteLength as (bs ++ cs)

end LineIndex

end ConceptMarkup
