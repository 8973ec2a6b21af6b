import ConceptMarkup.Proofs.WirePlaces

/-! Places whose offset is of no use. Where the offset of a place is not on its line, the column
leads to the same point of the wire; where it is, it leads there alone. A place that an editor makes
has offset 0, which is on the first line: there it stands for the start of the text, whatever the
column. -/
namespace ConceptMarkup.Protocol
open Text

/-- The column of a place counts the characters after the last line feed. -/
theorem column_start_after (as : List Char) :
    (Position.start.after as).column = (lastLine as).length + 1 := by
  obtain ⟨done, he, hd, hn⟩ := exists_append_lastLine as
  have hc : (Position.start.after done).column = 1 := by
    rcases hd with rfl | hd
    · rfl
    · obtain ⟨ds, rfl⟩ := List.getLast?_eq_some_iff.mp hd
      rw [Position.after_append]
      rfl
  conv_lhs => rw [he]
  rw [Position.after_append, Position.after_line _ hn, hc]
  exact Nat.add_comm _ _

private theorem unitsBeforeColumn_after (as bs : List Char) :
    unitsBeforeColumn (as ++ bs) (Position.start.after as).line (Position.start.after as).column =
      unitLength (lastLine as) := by
  obtain ⟨done, he, hd, hn⟩ := exists_append_lastLine as
  have hsource : as ++ bs = done ++ (lastLine as ++ bs) := by rw [← List.append_assoc, ← he]
  have hline : (Position.start.after as).line = done.count '\n' + 1 := by
    conv_lhs => rw [he]
    rw [Position.line_after, List.count_append, count_lastLine]
    exact Nat.add_comm _ _
  have hstart : ((LineIndex.ofText (as ++ bs)).lineStart? (done.count '\n' + 1)).bind
      (fun n => splitBytes? n (as ++ bs)) = some (done, lastLine as ++ bs) := by
    rw [hsource, LineIndex.lineStart?_closed done _ hd, Option.bind_some, splitBytes?_byteLength]
  have hrun : ((lastLine as ++ bs).takeWhile (· ≠ '\n')).take (lastLine as).length =
      lastLine as := by
    rw [List.takeWhile_append_of_pos, List.take_left]
    intro c hc
    rw [decide_eq_true_eq]
    rintro rfl
    exact hn hc
  rw [unitsBeforeColumn, hline, if_neg (Nat.succ_ne_zero _), hstart, column_start_after,
    Nat.add_sub_cancel]
  exact congrArg unitLength hrun

/-- An offset that is no place of a line: it is past the end of the text, inside a character, or at
a boundary on another line. -/
inductive Unusable (source : List Char) (line offset : Nat) : Prop where
  | pastEnd : byteLength source < offset → Unusable source line offset
  | inside {before after : List Char} {c : Char} : source = before ++ c :: after →
      byteLength before < offset → offset < byteLength before + c.utf8Size →
      Unusable source line offset
  | elsewhere : BoundaryAt source offset →
      ((LineIndex.ofText source).positionAt offset).line ≠ line → Unusable source line offset

private theorem unusable_of_not_boundaryAt {source : List Char} (line : Nat) {offset : Nat}
    (h : ¬ BoundaryAt source offset) : Unusable source line offset := by
  rcases not_boundaryAt_iff.mp h with hlt | ⟨before, c, after, he, hlt, hgt⟩
  · exact .pastEnd hlt
  · exact .inside he hlt hgt

private theorem unusable_iff_of_boundaryAt {source : List Char} {line offset : Nat}
    (h : BoundaryAt source offset) :
    Unusable source line offset ↔ ((LineIndex.ofText source).positionAt offset).line ≠ line := by
  constructor
  · rintro (hlt | ⟨he, hlt, hgt⟩ | ⟨-, hne⟩)
    · exact absurd h (not_boundaryAt_iff.mpr (.inl hlt))
    · exact absurd h (not_boundaryAt_iff.mpr (.inr ⟨_, _, _, he, hlt, hgt⟩))
    · exact hne
  · exact .elsewhere h

private theorem beforeOnLine?_eq_none_iff {source : List Char} {line offset : Nat} :
    beforeOnLine? source line offset = none ↔ Unusable source line offset := by
  by_cases hb : BoundaryAt source offset
  · rw [unusable_iff_of_boundaryAt hb]
    obtain ⟨as, bs, rfl, rfl⟩ := hb
    rw [beforeOnLine?_byteLength, LineIndex.positionAt_byteLength]
    simp only [ite_eq_right_iff, reduceCtorEq, imp_false, ne_eq]
  · have hn := Option.not_isSome_iff_eq_none.mp (boundaryAt_iff_splitBytes?.not.mp hb)
    refine iff_of_true ?_ (unusable_of_not_boundaryAt line hb)
    rw [beforeOnLine?, hn]
    rfl

namespace Point

private theorem ofPosition_column (as bs : List Char) {offset : Nat}
    (h : beforeOnLine? (as ++ bs) (Position.start.after as).line offset = none) :
    ofPosition (as ++ bs)
        ⟨(Position.start.after as).line, (Position.start.after as).column, offset⟩ =
      ofPosition (as ++ bs) (Position.start.after as) := by
  rw [ofPosition, ofPosition, h, beforeOnLine?_after, unitsBeforeColumn_after]

private theorem ofPosition_offset {source : List Char} {line offset : Nat}
    (h : ¬ Unusable source line offset) (column : Nat) :
    ofPosition source ⟨line, column, offset⟩ =
      ofPosition source ((LineIndex.ofText source).positionAt offset) := by
  have hb : BoundaryAt source offset := by
    by_contra hb
    exact h (unusable_of_not_boundaryAt line hb)
  rw [unusable_iff_of_boundaryAt hb, ne_eq, Decidable.not_not] at h
  obtain ⟨as, bs, rfl, rfl⟩ := hb
  rw [LineIndex.positionAt_byteLength] at h ⊢
  subst h
  rw [ofPosition, ofPosition, beforeOnLine?_after, beforeOnLine?_byteLength, if_pos rfl]

private theorem beforeOnLine?_zero (source : List Char) (line : Nat) :
    beforeOnLine? source line 0 = if line = 1 then some [] else none := by
  simp only [eq_comm (a := line)]
  exact beforeOnLine?_byteLength [] source line

private theorem ofPosition_first_line (source : List Char) (column : Nat) :
    ofPosition source ⟨1, column, 0⟩ = ⟨0, 0⟩ := by
  rw [ofPosition, beforeOnLine?_zero, if_pos rfl]
  rfl

private theorem ofNatClamp_pos {n : Nat} (h : 0 < n) : UInt32.ofNatClamp n ≠ 0 := by
  intro he
  have hz : (UInt32.ofNatClamp n).toNat = 0 := by rw [he]; rfl
  by_cases hn : n < UInt32.size
  · rw [UInt32.toNat_ofNatClamp_of_lt hn] at hz
    omega
  · rw [UInt32.toNat_ofNatClamp_of_le (Nat.le_of_not_lt hn)] at hz
    exact absurd hz (by decide)

private theorem ofPosition_after_eq_zero_iff {as : List Char} (bs : List Char) (h : '\n' ∉ as) :
    ofPosition (as ++ bs) (Position.start.after as) = ⟨0, 0⟩ ↔ as = [] := by
  constructor
  · intro he
    by_contra hn
    have hl : lastLine as = as := lastLine_append [] h
    have hc := congrArg Point.character he
    rw [ofPosition_after, hl] at hc
    exact ofNatClamp_pos (unitLength_pos hn) hc
  · rintro rfl
    exact ofPosition_first_line _ 1

/-- A place without its offset goes to the point of the place itself, by its column, exactly if it
is not on the first line or is its start. All other places of the first line go to its start,
because offset 0 is on that line and is preferred to the column. -/
theorem ofPosition_without_offset {source : List Char} {o : Nat} (h : BoundaryAt source o) :
    let p := (LineIndex.ofText source).positionAt o
    (ofPosition source ⟨p.line, p.column, 0⟩ = ofPosition source p ↔ p.line ≠ 1 ∨ o = 0) ∧
      (p.line = 1 → ofPosition source ⟨p.line, p.column, 0⟩ = ⟨0, 0⟩) := by
  obtain ⟨as, bs, rfl, rfl⟩ := h
  intro p
  have hp : p = Position.start.after as := LineIndex.positionAt_byteLength as bs
  rw [hp]
  by_cases hl : (Position.start.after as).line = 1
  · have hn : '\n' ∉ as := fun hm => absurd (Position.start.line_lt_after hm) (by rw [hl]; decide)
    rw [hl, ofPosition_first_line, eq_comm, ofPosition_after_eq_zero_iff bs hn,
      byteLength_eq_zero_iff]
    simp
  · have hz := beforeOnLine?_zero (as ++ bs) (Position.start.after as).line
    rw [if_neg hl] at hz
    exact ⟨iff_of_true (ofPosition_column as bs hz) (.inl hl), fun he => absurd he hl⟩

/-- On the second line a character of two units is one column. -/
theorem ofPosition_without_offset_after_astral :
    let source := "@A\n𝄞 @A".toList
    BoundaryAt source 8 ∧ (LineIndex.ofText source).positionAt 8 = ⟨2, 3, 8⟩ ∧
      ofPosition source ⟨2, 3, 0⟩ = ofPosition source ⟨2, 3, 8⟩ ∧
      ofPosition source ⟨2, 3, 8⟩ = ⟨1, 3⟩ := by
  have hb : BoundaryAt "@A\n𝄞 @A".toList 8 :=
    ⟨"@A\n𝄞 ".toList, "@A".toList, by decide, by decide⟩
  exact ⟨hb, by decide, (ofPosition_without_offset hb).1.mpr (.inl (by decide)), by decide⟩

/-- The column is not used on the first line: the place before the fifth character goes to the start
of the text if it comes without its offset. -/
theorem column_unused_on_first_line :
    let source := "see @B".toList
    BoundaryAt source 4 ∧ (LineIndex.ofText source).positionAt 4 = ⟨1, 5, 4⟩ ∧
      ofPosition source ⟨1, 5, 4⟩ = ⟨0, 4⟩ ∧ ofPosition source ⟨1, 5, 0⟩ = ⟨0, 0⟩ ∧
      ¬ ∀ (source : List Char) (o : Nat), BoundaryAt source o →
        let p := (LineIndex.ofText source).positionAt o
        ofPosition source ⟨p.line, p.column, 0⟩ = ofPosition source p := by
  have hb : BoundaryAt "see @B".toList 4 := ⟨"see ".toList, "@B".toList, by decide, by decide⟩
  refine ⟨hb, by decide, by decide, by decide, fun h => ?_⟩
  exact absurd (h _ 4 hb) (by decide)

/-- A place may come with any offset in place of its own. If that offset is of no use on the line of
the place, the column leads to the same point; if it is of use, the point is that of the offset. -/
theorem ofPosition_any_offset {source : List Char} {o : Nat} (h : BoundaryAt source o) (x : Nat) :
    let p := (LineIndex.ofText source).positionAt o
    (Unusable source p.line x →
        ofPosition source ⟨p.line, p.column, x⟩ = ofPosition source p) ∧
      (¬ Unusable source p.line x → ofPosition source ⟨p.line, p.column, x⟩ =
        ofPosition source ((LineIndex.ofText source).positionAt x)) := by
  obtain ⟨as, bs, rfl, rfl⟩ := h
  intro p
  refine ⟨fun hx => ?_, fun hx => ofPosition_offset hx p.column⟩
  have hp : p = Position.start.after as := LineIndex.positionAt_byteLength as bs
  rw [hp] at hx ⊢
  exact ofPosition_column as bs (beforeOnLine?_eq_none_iff.mpr hx)

/-- On the first line an offset past the end, one inside a character and one on the second line are
of no use, and one on the line itself leads elsewhere. -/
theorem ofPosition_any_offset_on_first_line :
    let source := "é@A\n𝄞 @B".toList
    let p : Position := ⟨1, 3, 3⟩
    BoundaryAt source 3 ∧ (LineIndex.ofText source).positionAt 3 = p ∧
      (Unusable source 1 99 ∧ ofPosition source ⟨1, 3, 99⟩ = ofPosition source p) ∧
      (Unusable source 1 1 ∧ ofPosition source ⟨1, 3, 1⟩ = ofPosition source p) ∧
      (Unusable source 1 5 ∧ ofPosition source ⟨1, 3, 5⟩ = ofPosition source p) ∧
      (¬ Unusable source 1 2 ∧ ofPosition source ⟨1, 3, 2⟩ = ⟨0, 1⟩) ∧
      ofPosition source p = ⟨0, 2⟩ := by
  intro source p
  have hb : BoundaryAt source 3 := ⟨"é@".toList, "A\n𝄞 @B".toList, by decide, by decide⟩
  have hpast : Unusable source 1 99 := .pastEnd (by decide)
  have he : source = [] ++ 'é' :: "@A\n𝄞 @B".toList := rfl
  have hinside : Unusable source 1 1 := .inside he (by decide) (by decide)
  have hother : Unusable source 1 5 :=
    .elsewhere ⟨"é@A\n".toList, "𝄞 @B".toList, by decide, by decide⟩ (by decide)
  have huse : ¬ Unusable source 1 2 := by
    rw [unusable_iff_of_boundaryAt ⟨"é".toList, "@A\n𝄞 @B".toList, by decide, by decide⟩]
    decide
  refine ⟨hb, by decide, ⟨hpast, ?_⟩, ⟨hinside, ?_⟩, ⟨hother, ?_⟩, ⟨huse, ?_⟩, by decide⟩
  · exact (ofPosition_any_offset hb 99).1 hpast
  · exact (ofPosition_any_offset hb 1).1 hinside
  · exact (ofPosition_any_offset hb 5).1 hother
  · refine ((ofPosition_any_offset hb 2).2 huse).trans ?_
    decide

end Point

end ConceptMarkup.Protocol
