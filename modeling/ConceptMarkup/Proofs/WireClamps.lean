import Mathlib.Order.Bounds.Defs
import ConceptMarkup.Proofs.LineTokens
import ConceptMarkup.Proofs.WirePlaces

/-! Points of the wire that an editor may send, whether or not the text has a place for them. A
character between two places moves on to the second, one beyond its line back to the end of the
line, and a line beyond the last to the end of the text; no point overtakes another on the way. -/
namespace ConceptMarkup
open Text

namespace Text

/-- The line that has `n` lines before it, with the text before it and the text after it. -/
structure LineAt (cs : List Char) (n : Nat) (done line rest : List Char) : Prop where
  whole : cs = done ++ line ++ rest
  count : done.count '\n' = n
  start : AtLineStart done
  single : '\n' ∉ line
  stop : ∀ c ∈ rest.head?, c = '\n'

/-- A text has a line for each line feed, and one more. -/
theorem exists_lineAt {cs : List Char} {n : Nat} (h : n ≤ cs.count '\n') :
    ∃ done line rest, LineAt cs n done line rest := by
  induction cs using line_induction generalizing n with
  | last line hn =>
    rw [List.count_eq_zero.mpr hn] at h
    exact ⟨[], line, [], ⟨by simp, (Nat.le_zero.mp h).symm, .inl rfl, hn, by simp⟩⟩
  | cons line rest hn ih =>
    cases n with
    | zero => exact ⟨[], line, '\n' :: rest, ⟨rfl, rfl, .inl rfl, hn, by simp⟩⟩
    | succ n =>
      rw [List.count_append, List.count_eq_zero.mpr hn, List.count_cons_self] at h
      obtain ⟨done, line', rest', hl⟩ := ih (n := n) (by omega)
      refine ⟨line ++ '\n' :: done, line', rest', ?_, ?_, .inr ?_, hl.single, hl.stop⟩
      · rw [hl.whole]
        simp only [List.append_assoc, List.cons_append]
      · rw [List.count_append, List.count_eq_zero.mpr hn, List.count_cons_self, hl.count,
          Nat.zero_add]
      · rcases hl.start with rfl | hlast
        · exact List.getLast?_concat
        · rw [List.getLast?_append_of_ne_nil _ (List.cons_ne_nil _ _), List.getLast?_cons, hlast]
          rfl

end Text

/-- Behind the last line no line starts. -/
theorem LineIndex.lineStart?_eq_none {cs : List Char} {n : Nat} (h : cs.count '\n' + 1 < n) :
    (ofText cs).lineStart? n = none := by
  obtain ⟨m, rfl⟩ : ∃ m, n = m + 2 := ⟨n - 2, by omega⟩
  refine List.getElem?_eq_none ?_
  rw [ofText, length_lineStarts]
  omega

namespace Protocol

/-- A later line, or the same line and no earlier character. -/
instance : LE Point where
  le p q := p.line < q.line ∨ p.line = q.line ∧ p.character ≤ q.character

private theorem untilUnits_isPrefix (units : Nat) (cs : List Char) :
    untilUnits units cs <+: cs := by
  fun_induction untilUnits units cs with
  | case1 => exact List.prefix_refl _
  | case2 => exact List.nil_prefix
  | case3 units c cs _ ih => exact List.cons_prefix_cons.mpr ⟨rfl, ih⟩

private theorem untilUnits_append_of_lineEnd (units : Nat) (line : List Char) {rest : List Char}
    (h : ∀ c ∈ rest.head?, c = '\n') : untilUnits units (line ++ rest) = untilUnits units line := by
  induction line generalizing units with
  | nil =>
    cases rest with
    | nil => rfl
    | cons c rest =>
      obtain rfl := h c rfl
      rfl
  | cons c line ih => rw [List.cons_append, untilUnits, untilUnits, ih]

private theorem untilUnits_cons {u : Nat} {c : Char} (line : List Char) (hc : c ≠ '\n')
    (hu : u ≠ 0) : untilUnits u (c :: line) = c :: untilUnits (u - units16 c) line := by
  rw [untilUnits, if_neg (by simp [hc, hu])]

private theorem untilUnits_eq_self {u : Nat} {line : List Char} (hn : '\n' ∉ line)
    (h : unitLength line < u) : untilUnits u line = line := by
  induction line generalizing u with
  | nil => rfl
  | cons c line ih =>
    rw [List.mem_cons, not_or] at hn
    rw [unitLength_cons] at h
    rw [untilUnits_cons line (Ne.symm hn.1) (by omega), ih hn.2 (by omega)]

private theorem untilUnits_mono {u v : Nat} (h : u ≤ v) (line : List Char) :
    untilUnits u line <+: untilUnits v line := by
  induction line generalizing u v with
  | nil => exact List.prefix_refl _
  | cons c line ih =>
    by_cases hu : c = '\n' ∨ u = 0
    · rw [untilUnits, if_pos (by simpa using hu)]
      exact List.nil_prefix
    · rw [not_or] at hu
      rw [untilUnits_cons line hu.1 hu.2, untilUnits_cons line hu.1 (by omega)]
      exact List.cons_prefix_cons.mpr ⟨rfl, ih (by omega)⟩

private theorem le_unitLength_untilUnits {u : Nat} {line : List Char} (hn : '\n' ∉ line)
    (h : u ≤ unitLength line) : u ≤ unitLength (untilUnits u line) := by
  induction line generalizing u with
  | nil => exact h
  | cons c line ih =>
    rw [List.mem_cons, not_or] at hn
    rw [unitLength_cons] at h
    by_cases hu : u = 0
    · rw [hu]
      exact Nat.zero_le _
    · have hline : u - units16 c ≤ unitLength line := by omega
      have := ih hn.2 hline
      rw [untilUnits_cons line (Ne.symm hn.1) hu, unitLength_cons]
      omega

private theorem byteLength_untilUnits_le {u : Nat} {part line : List Char} (hp : part <+: line)
    (h : u ≤ unitLength part) : byteLength (untilUnits u line) ≤ byteLength part := by
  induction line generalizing u part with
  | nil => exact Nat.zero_le _
  | cons c line ih =>
    by_cases hu : c = '\n' ∨ u = 0
    · rw [untilUnits, if_pos (by simpa using hu)]
      exact Nat.zero_le _
    · rw [not_or] at hu
      cases part with
      | nil => exact absurd (Nat.le_zero.mp h) hu.2
      | cons d part =>
        obtain ⟨rfl, hline⟩ := List.cons_prefix_cons.mp hp
        rw [unitLength_cons] at h
        have hpart : u - units16 d ≤ unitLength part := by omega
        have := ih hline hpart
        rw [untilUnits_cons line hu.1 hu.2, byteLength_cons, byteLength_cons]
        omega

namespace Point

private theorem toPosition_of_lineAt {source done line rest : List Char} {q : Point}
    (h : LineAt source q.line.toNat done line rest) :
    q.toPosition source = Position.start.after (done ++ untilUnits q.character.toNat line) := by
  obtain ⟨tail, ht⟩ := untilUnits_isPrefix q.character.toNat line
  have hsource : source = done ++ (line ++ rest) := by rw [h.whole, List.append_assoc]
  have hstart := LineIndex.lineStart?_closed done (line ++ rest) h.start
  have hsplit := splitBytes?_byteLength done (line ++ rest)
  rw [← hsource] at hstart hsplit
  rw [h.count] at hstart
  simp only [toPosition, hstart, hsplit, Option.getD_some, Option.elim_some,
    untilUnits_append_of_lineEnd _ line h.stop]
  rw [← byteLength_append]
  have := LineIndex.positionAt_byteLength (done ++ untilUnits q.character.toNat line) (tail ++ rest)
  rwa [List.append_assoc, ← List.append_assoc _ tail, ht, ← hsource] at this

private theorem toPosition_of_count_lt {source : List Char} {q : Point}
    (h : source.count '\n' < q.line.toNat) : q.toPosition source = Position.start.after source := by
  have hstart := LineIndex.lineStart?_eq_none (Nat.succ_lt_succ h)
  have hsplit := splitBytes?_byteLength source []
  have hend := LineIndex.positionAt_byteLength source []
  rw [List.append_nil] at hsplit hend
  simp only [toPosition, hstart, hsplit, Option.getD_none, Option.elim_some, untilUnits,
    byteLength_nil, Nat.add_zero]
  exact hend

private theorem toPosition_in (source : List Char) (q : Point) :
    (q.toPosition source).In source := by
  by_cases h : q.line.toNat ≤ source.count '\n'
  · obtain ⟨done, line, rest, hl⟩ := exists_lineAt h
    obtain ⟨tail, ht⟩ := untilUnits_isPrefix q.character.toNat line
    have hin := Position.in_after (done ++ untilUnits q.character.toNat line) (tail ++ rest)
    rw [List.append_assoc, ← List.append_assoc _ tail, ht, ← List.append_assoc, ← hl.whole] at hin
    rwa [toPosition_of_lineAt hl]
  · have hin := Position.in_after source []
    rw [List.append_nil] at hin
    rwa [toPosition_of_count_lt (Nat.lt_of_not_le h)]

private theorem line_toPosition {source : List Char} {q : Point}
    (h : q.line.toNat ≤ source.count '\n') : (q.toPosition source).line = q.line.toNat + 1 := by
  obtain ⟨done, line, rest, hl⟩ := exists_lineAt h
  have hn : '\n' ∉ untilUnits q.character.toNat line := fun hm =>
    hl.single ((untilUnits_isPrefix _ _).subset hm)
  rw [toPosition_of_lineAt hl, Position.line_after, List.count_append, hl.count,
    List.count_eq_zero.mpr hn]
  exact Nat.add_comm _ _

private theorem toPosition_mono {source : List Char} {q q' : Point} (h : q ≤ q') :
    (q.toPosition source).offset ≤ (q'.toPosition source).offset := by
  by_cases hq' : q'.line.toNat ≤ source.count '\n'
  · rcases h with hlt | ⟨he, hc⟩
    · have hline := UInt32.lt_iff_toNat_lt.mp hlt
      refine (Position.le_iff_offset_le (toPosition_in source q) (toPosition_in source q')).mp ?_
      refine .inl ?_
      rw [line_toPosition (by omega), line_toPosition hq']
      exact Nat.succ_lt_succ hline
    · obtain ⟨done, line, rest, hl⟩ := exists_lineAt hq'
      have hl' : LineAt source q.line.toNat done line rest := by rwa [he]
      obtain ⟨tail, ht⟩ := untilUnits_mono (UInt32.le_iff_toNat_le.mp hc) line
      rw [toPosition_of_lineAt hl, toPosition_of_lineAt hl', Position.offset_start_after,
        Position.offset_start_after, ← ht, ← List.append_assoc, byteLength_append _ tail]
      exact Nat.le_add_right _ _
  · rw [toPosition_of_count_lt (Nat.lt_of_not_le hq'), Position.offset_start_after]
    exact (toPosition_in source q).1.le_byteLength

/-- Whatever point comes from the wire, it leads to a place of the text: on a line that exists, to
the first boundary with at least so many units of the line before it, or to the end of the line if
it is shorter; from behind the last line, to the end of the text. Later points do not lead to
earlier places, and a place of an addressable text that is reached so comes back from the wire
unchanged. -/
theorem toPosition_clamps (source : List Char) (q : Point) :
    let p := q.toPosition source
    p.In source ∧
    (q.line.toNat ≤ source.count '\n' → ∃ done line rest,
      LineAt source q.line.toNat done line rest ∧ p.line = q.line.toNat + 1 ∧
      (q.character.toNat ≤ unitLength line →
        IsLeast {b | ∃ part, part <+: line ∧ q.character.toNat ≤ unitLength part ∧
          b = byteLength (done ++ part)} p.offset) ∧
      (unitLength line < q.character.toNat → p.offset = byteLength (done ++ line))) ∧
    (source.count '\n' < q.line.toNat → p.offset = byteLength source) ∧
    (∀ q', q ≤ q' → p.offset ≤ (q'.toPosition source).offset) ∧
    (Addressable source → (ofPosition source p).toPosition source = p) := by
  intro p
  have hin := toPosition_in source q
  refine ⟨hin, ?_, ?_, fun q' => toPosition_mono, fun h => toPosition_ofPosition h hin⟩
  · intro h
    obtain ⟨done, line, rest, hl⟩ := exists_lineAt h
    have hp : p = Position.start.after (done ++ untilUnits q.character.toNat line) :=
      toPosition_of_lineAt hl
    have ho : p.offset = byteLength (done ++ untilUnits q.character.toNat line) := by
      rw [hp, Position.offset_start_after]
    refine ⟨done, line, rest, hl, line_toPosition h, fun hc => ⟨?_, ?_⟩, fun hc => ?_⟩
    · exact ⟨_, untilUnits_isPrefix _ _, le_unitLength_untilUnits hl.single hc, ho⟩
    · rintro _ ⟨part, hpart, hu, rfl⟩
      rw [ho, byteLength_append, byteLength_append]
      exact Nat.add_le_add_left (byteLength_untilUnits_le hpart hu) _
    · rw [ho, untilUnits_eq_self hl.single hc]
  · intro h
    have hp : p = Position.start.after source := toPosition_of_count_lt h
    rw [hp, Position.offset_start_after]

end Point

end Protocol

end ConceptMarkup
