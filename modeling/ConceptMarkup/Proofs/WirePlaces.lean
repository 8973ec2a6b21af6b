import Mathlib.Data.List.DropRight
import ConceptMarkup.Editor.Protocol
import ConceptMarkup.Proofs.PlaceOrder

/-! Places of a text on the wire. There a place is the number of line feeds before it with the units
between the last of them and the place; walking a line until so many units have passed leads back to
it, and what comes later in the text comes later on the wire. -/
namespace ConceptMarkup.Protocol
open Text

/-- Lines and units of lines can be counted on the wire. -/
structure Addressable (source : List Char) : Prop where
  lines : (source.splitOn '\n').length < UInt32.size
  units : ∀ line ∈ source.splitOn '\n', unitLength line < UInt32.size

/-- Points are ordered by line and then by character. -/
instance : LT Point where
  lt p q := p.line < q.line ∨ p.line = q.line ∧ p.character < q.character

theorem unitLength_pos {cs : List Char} (h : cs ≠ []) : 0 < unitLength cs := by
  obtain ⟨c, cs, rfl⟩ := List.exists_cons_of_ne_nil h
  rw [unitLength_cons, units16]
  split <;> omega

theorem exists_append_lastLine (cs : List Char) : ∃ done, cs = done ++ lastLine cs ∧
    (done = [] ∨ done.getLast? = some '\n') ∧ '\n' ∉ lastLine cs := by
  refine ⟨cs.rdropWhile (· ≠ '\n'), List.rdropWhile_append_rtakeWhile.symm, ?_, ?_⟩
  · by_cases hn : cs.rdropWhile (· ≠ '\n') = []
    · exact .inl hn
    · have := List.rdropWhile_last_not _ _ hn
      rw [List.getLast?_eq_some_getLast hn]
      exact .inr (by simpa using this)
  · intro hm
    have := List.mem_rtakeWhile_imp hm
    simp at this

theorem lastLine_append (as : List Char) {bs : List Char} (h : '\n' ∉ bs) :
    lastLine (as ++ bs) = lastLine as ++ bs := by
  have hb : ∀ c ∈ bs.reverse, decide (c ≠ '\n') = true := by
    intro c hc
    rw [decide_eq_true_eq]
    rintro rfl
    exact h (List.mem_reverse.mp hc)
  rw [lastLine, List.reverse_append, List.takeWhile_append_of_pos hb, List.reverse_append,
    List.reverse_reverse, lastLine]

theorem count_lastLine (cs : List Char) : (lastLine cs).count '\n' = 0 := by
  obtain ⟨_, -, -, hn⟩ := exists_append_lastLine cs
  exact List.count_eq_zero.mpr hn

private theorem length_splitOn (cs : List Char) :
    (cs.splitOn '\n').length = cs.count '\n' + 1 := by
  induction cs with
  | nil => rfl
  | cons c cs ih =>
    rw [List.splitOn_cons_eq_if_modifyHead]
    by_cases hc : c = '\n'
    · simp [hc, ih]
    · simp [hc, ih]

private theorem splitOn_append {as : List Char} (bs : List Char) (h : '\n' ∉ as) :
    (as ++ bs).splitOn '\n' = (bs.splitOn '\n').modifyHead (as ++ ·) := by
  induction as with
  | nil =>
    rw [List.nil_append]
    cases bs.splitOn '\n' <;> rfl
  | cons a as ih =>
    rw [List.mem_cons, not_or] at h
    rw [List.cons_append, List.splitOn_cons_eq_if_modifyHead, ih h.2]
    simp [Ne.symm h.1, Function.comp_def]

private theorem exists_line_of_not_mem {as : List Char} (bs : List Char) (h : '\n' ∉ as) :
    ∃ line ∈ (as ++ bs).splitOn '\n', as <+: line := by
  obtain ⟨l, ls, hl⟩ := List.exists_cons_of_ne_nil (List.splitOn_ne_nil '\n' bs)
  rw [splitOn_append bs h, hl]
  exact ⟨as ++ l, List.mem_cons_self, List.prefix_append as l⟩

private theorem exists_line_lastLine (as bs : List Char) :
    ∃ line ∈ (as ++ bs).splitOn '\n', lastLine as <+: line := by
  obtain ⟨done, he, hd, hn⟩ := exists_append_lastLine as
  obtain ⟨line, hm, hp⟩ := exists_line_of_not_mem bs hn
  refine ⟨line, ?_, hp⟩
  conv => rw [he]
  rw [List.append_assoc]
  rcases hd with rfl | hd
  · exact hm
  · obtain ⟨ds, rfl⟩ := List.getLast?_eq_some_iff.mp hd
    rw [List.append_assoc, List.singleton_append, List.splitOn_append_cons_self]
    exact List.mem_append_right _ hm

namespace Addressable

variable {as bs : List Char}

private theorem count_lt (h : Addressable (as ++ bs)) : as.count '\n' < UInt32.size := by
  have := h.lines
  rw [length_splitOn, List.count_append] at this
  omega

private theorem unitLength_lt (h : Addressable (as ++ bs)) :
    unitLength (lastLine as) < UInt32.size := by
  obtain ⟨line, hm, rest, rfl⟩ := exists_line_lastLine as bs
  have := h.units _ hm
  rw [unitLength_append] at this
  omega

end Addressable

theorem beforeOnLine?_byteLength (as bs : List Char) (line : Nat) :
    beforeOnLine? (as ++ bs) line (byteLength as) =
      if (Position.start.after as).line = line then some as else none := by
  rw [beforeOnLine?, splitBytes?_byteLength, Position.line_after, Nat.add_comm]
  rfl

theorem beforeOnLine?_after (as bs : List Char) :
    beforeOnLine? (as ++ bs) (Position.start.after as).line (Position.start.after as).offset =
      some as := by
  rw [Position.offset_start_after, beforeOnLine?_byteLength, if_pos rfl]

namespace Point

theorem ofPosition_after (as bs : List Char) :
    ofPosition (as ++ bs) (Position.start.after as) =
      ⟨.ofNatClamp (as.count '\n'), .ofNatClamp (unitLength (lastLine as))⟩ := by
  have hl : (Position.start.after as).line - 1 = as.count '\n' := by
    rw [Position.line_after]
    exact Nat.add_sub_cancel_left _ _
  rw [ofPosition, beforeOnLine?_after, hl]

private theorem toNat_ofPosition {as bs : List Char} (h : Addressable (as ++ bs)) :
    (ofPosition (as ++ bs) (Position.start.after as)).line.toNat = as.count '\n' ∧
      (ofPosition (as ++ bs) (Position.start.after as)).character.toNat =
        unitLength (lastLine as) := by
  rw [ofPosition_after]
  exact ⟨UInt32.toNat_ofNatClamp_of_lt h.count_lt, UInt32.toNat_ofNatClamp_of_lt h.unitLength_lt⟩

private theorem untilUnits_append {part : List Char} (rest : List Char) (h : '\n' ∉ part) :
    untilUnits (unitLength part) (part ++ rest) = part := by
  induction part with
  | nil => cases rest <;> simp [untilUnits]
  | cons c part ih =>
    rw [List.mem_cons, not_or] at h
    have := unitLength_pos (List.cons_ne_nil c part)
    rw [List.cons_append, untilUnits, if_neg, unitLength_cons, Nat.add_sub_cancel_left, ih h.2]
    simp only [Ne.symm h.1, decide_false, Bool.false_or, decide_eq_true_eq]
    omega

private theorem toPosition_of_counts (as bs : List Char) {p : Point}
    (hl : p.line.toNat = as.count '\n') (hc : p.character.toNat = unitLength (lastLine as)) :
    p.toPosition (as ++ bs) = Position.start.after as := by
  obtain ⟨done, he, hd, hn⟩ := exists_append_lastLine as
  have hcount : as.count '\n' = done.count '\n' := by
    conv_lhs => rw [he]
    rw [List.count_append, count_lastLine, Nat.add_zero]
  have hs := LineIndex.lineStart?_closed done (lastLine as ++ bs) hd
  rw [← List.append_assoc, ← he] at hs
  have hsplit := splitBytes?_byteLength done (lastLine as ++ bs)
  rw [← List.append_assoc, ← he] at hsplit
  simp only [toPosition, hl, hc, hcount, hs, hsplit, Option.getD_some, Option.elim_some,
    untilUnits_append bs hn]
  rw [← byteLength_append, ← he, LineIndex.positionAt_byteLength]

/-- A place of an addressable text comes back from the wire unchanged. -/
theorem toPosition_ofPosition {source : List Char} (h : Addressable source) {p : Position}
    (hp : p.In source) : (ofPosition source p).toPosition source = p := by
  obtain ⟨as, bs, rfl, rfl⟩ := Position.in_iff.mp hp
  obtain ⟨hl, hc⟩ := toNat_ofPosition h
  exact toPosition_of_counts as bs hl hc

private theorem ofPosition_lt {as ms bs : List Char} (h : Addressable (as ++ ms ++ bs))
    (hm : ms ≠ []) :
    ofPosition (as ++ ms ++ bs) (Position.start.after as) <
      ofPosition (as ++ ms ++ bs) (Position.start.after (as ++ ms)) := by
  obtain ⟨hl', hc'⟩ := toNat_ofPosition h
  rw [List.append_assoc] at h
  obtain ⟨hl, hc⟩ := toNat_ofPosition h
  rw [← List.append_assoc] at hl hc
  by_cases hn : '\n' ∈ ms
  · have := List.count_pos_iff.mpr hn
    refine .inl (UInt32.lt_iff_toNat_lt.mpr ?_)
    rw [hl, hl', List.count_append]
    omega
  · have := unitLength_pos hm
    refine .inr ⟨UInt32.toNat_inj.mp ?_, UInt32.lt_iff_toNat_lt.mpr ?_⟩
    · rw [hl, hl', List.count_append, List.count_eq_zero.mpr hn, Nat.add_zero]
    · rw [hc, hc', lastLine_append as hn, unitLength_append]
      omega

end Point

/-- Places of an addressable text go to the wire and back unchanged, and keep their order there. -/
theorem places_faithful_on_wire (source : List Char) (h : Addressable source) {o : Nat}
    (ho : BoundaryAt source o) :
    (Point.ofPosition source ((LineIndex.ofText source).positionAt o)).toPosition source =
        (LineIndex.ofText source).positionAt o ∧
      ∀ o', BoundaryAt source o' → o < o' →
        Point.ofPosition source ((LineIndex.ofText source).positionAt o) <
          Point.ofPosition source ((LineIndex.ofText source).positionAt o') := by
  obtain ⟨as, bs, rfl, rfl⟩ := ho
  constructor
  · obtain ⟨hl, hc⟩ := Point.toNat_ofPosition h
    rw [LineIndex.positionAt_byteLength, Point.toPosition_of_counts as bs hl hc]
  · rintro o' ⟨as', bs', he, rfl⟩ hlt
    obtain ⟨ms, rfl, rfl⟩ := exists_append_of_byteLength_le he (Nat.le_of_lt hlt)
    rw [← List.append_assoc] at h ⊢
    rw [List.append_assoc, LineIndex.positionAt_byteLength, ← List.append_assoc,
      LineIndex.positionAt_byteLength]
    refine Point.ofPosition_lt h ?_
    rintro rfl
    rw [List.append_nil] at hlt
    exact Nat.lt_irrefl _ hlt

/-- A character beyond the basic plane is one column, four bytes and two units. -/
theorem places_faithful_after_astral :
    let source := "é😀\nb".toList
    Addressable source ∧ BoundaryAt source 6 ∧ BoundaryAt source 7 ∧
      (LineIndex.ofText source).positionAt 6 = ⟨1, 3, 6⟩ ∧
      Point.ofPosition source ⟨1, 3, 6⟩ = ⟨0, 3⟩ ∧
      (Point.ofPosition source ((LineIndex.ofText source).positionAt 6)).toPosition source =
        (LineIndex.ofText source).positionAt 6 ∧
      Point.ofPosition source ((LineIndex.ofText source).positionAt 6) <
        Point.ofPosition source ((LineIndex.ofText source).positionAt 7) := by
  have ha : Addressable "é😀\nb".toList := ⟨by decide, by decide⟩
  have h6 : BoundaryAt "é😀\nb".toList 6 := ⟨['é', '😀'], ['\n', 'b'], by decide, by decide⟩
  have h7 : BoundaryAt "é😀\nb".toList 7 := ⟨['é', '😀', '\n'], ['b'], by decide, by decide⟩
  obtain ⟨hround, hlt⟩ := places_faithful_on_wire _ ha h6
  exact ⟨ha, h6, h7, by decide, by decide, hround, hlt 7 h7 (by decide)⟩

end ConceptMarkup.Protocol
