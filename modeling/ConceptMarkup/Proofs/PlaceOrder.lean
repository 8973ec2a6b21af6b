import ConceptMarkup.Proofs.LinePositions

/-! The places of one text. Line and column put them in the order of their byte offsets, so that
whether a range holds a place may be read off either. -/
namespace ConceptMarkup
open Text

/-- A text can be cut at byte offset `o`. -/
def Text.BoundaryAt (cs : List Char) (o : Nat) : Prop :=
  ∃ before after, cs = before ++ after ∧ byteLength before = o

theorem Text.BoundaryAt.le_byteLength {cs : List Char} {n : Nat} (h : BoundaryAt cs n) :
    n ≤ byteLength cs := by
  obtain ⟨before, after, rfl, rfl⟩ := h
  rw [byteLength_append]
  exact Nat.le_add_right _ _

theorem Text.boundaryAt_iff_splitBytes? {cs : List Char} {n : Nat} :
    BoundaryAt cs n ↔ (splitBytes? n cs).isSome := by
  constructor
  · rintro ⟨before, after, rfl, rfl⟩
    rw [splitBytes?_byteLength]
    rfl
  · intro h
    fun_induction splitBytes? n cs with
    | case1 cs => exact ⟨[], cs, rfl, rfl⟩
    | case2 => cases h
    | case3 n c cs hc ih =>
      rw [Option.isSome_map] at h
      obtain ⟨before, after, rfl, hb⟩ := ih h
      refine ⟨c :: before, after, rfl, ?_⟩
      rw [byteLength_cons, hb]
      omega
    | case4 => cases h

/-- Where a text cannot be cut, an offset is past its end or inside one of its characters. -/
theorem Text.not_boundaryAt_iff {cs : List Char} {n : Nat} : ¬ BoundaryAt cs n ↔
    byteLength cs < n ∨ ∃ before c after, cs = before ++ c :: after ∧ byteLength before < n ∧
      n < byteLength before + c.utf8Size := by
  constructor
  · rw [boundaryAt_iff_splitBytes?]
    intro h
    fun_induction splitBytes? n cs with
    | case1 => exact absurd rfl h
    | case2 n => exact .inl (Nat.succ_pos n)
    | case3 n c cs hc ih =>
      rw [Option.isSome_map] at h
      rcases ih h with hlt | ⟨before, d, after, rfl, hlt, hgt⟩
      · left
        rw [byteLength_cons]
        omega
      · refine .inr ⟨c :: before, d, after, rfl, ?_, ?_⟩
        · rw [byteLength_cons]
          omega
        · rw [byteLength_cons]
          omega
    | case4 n c cs hc =>
      refine .inr ⟨[], c, cs, rfl, Nat.succ_pos n, ?_⟩
      rw [byteLength_nil]
      omega
  · rintro (hlt | ⟨before, c, after, rfl, hlt, hgt⟩) hb
    · exact Nat.not_le_of_gt hlt hb.le_byteLength
    · obtain ⟨before', after', he, rfl⟩ := hb
      obtain ⟨ms, rfl, hm⟩ := exists_append_of_byteLength_le he (Nat.le_of_lt hlt)
      cases ms with
      | nil =>
        rw [List.append_nil] at hlt
        exact Nat.lt_irrefl _ hlt
      | cons d ms =>
        obtain ⟨rfl, -⟩ := List.cons.inj hm
        rw [byteLength_append, byteLength_cons] at hgt
        omega

/-- A line begins after this text. -/
def Text.AtLineStart (before : List Char) : Prop := before = [] ∨ before.getLast? = some '\n'

namespace Position

theorem line_after (p : Position) (cs : List Char) :
    (p.after cs).line = p.line + cs.count '\n' := by
  induction cs generalizing p with
  | nil => rfl
  | cons c cs ih =>
    rw [after_cons, ih]
    by_cases hc : c = '\n'
    · subst hc
      rw [List.count_cons_self]
      simp only [advance, ↓reduceIte]
      omega
    · rw [List.count_cons_of_ne hc]
      simp only [advance, hc, ↓reduceIte]

theorem line_lt_after (p : Position) {cs : List Char} (h : '\n' ∈ cs) :
    p.line < (p.after cs).line := by
  have := List.count_pos_iff.mpr h
  rw [line_after]
  omega

theorem after_line (p : Position) {cs : List Char} (h : '\n' ∉ cs) :
    p.after cs = ⟨p.line, p.column + cs.length, p.offset + byteLength cs⟩ := by
  induction cs generalizing p with
  | nil => rfl
  | cons c cs ih =>
    rw [List.mem_cons, not_or] at h
    rw [after_cons, ih _ h.2, advance, if_neg (Ne.symm h.1), List.length_cons, byteLength_cons,
      Nat.add_right_comm p.column, Nat.add_assoc p.offset]
    rfl

private theorem le_after (p : Position) (cs : List Char) : p ≤ p.after cs := by
  by_cases h : '\n' ∈ cs
  · exact .inl (p.line_lt_after h)
  · rw [after_line p h]
    exact .inr ⟨rfl, Nat.le_add_right _ _⟩

private theorem le_after_append (p : Position) (as bs : List Char) :
    p.after as ≤ p.after (as ++ bs) := by
  rw [after_append]
  exact le_after _ bs

private theorem not_after_le (p : Position) {cs : List Char} (h : cs ≠ []) : ¬ p.after cs ≤ p := by
  have hl := List.length_pos_of_ne_nil h
  by_cases hm : '\n' ∈ cs
  · have := p.line_lt_after hm
    rintro (hlt | ⟨he, -⟩)
    · omega
    · omega
  · rw [after_line p hm]
    rintro (hlt | ⟨-, hle⟩)
    · exact Nat.lt_irrefl _ hlt
    · simp only at hle
      omega

/-- A place of a text: it lies at a boundary, and the line index finds it there. -/
def In (p : Position) (cs : List Char) : Prop :=
  BoundaryAt cs p.offset ∧ (LineIndex.ofText cs).positionAt p.offset = p

theorem offset_start_after (cs : List Char) : (start.after cs).offset = byteLength cs := by
  rw [offset_after, start, Nat.zero_add]

theorem in_after (before after : List Char) : (start.after before).In (before ++ after) := by
  refine ⟨⟨before, after, rfl, (offset_start_after before).symm⟩, ?_⟩
  rw [offset_start_after, LineIndex.positionAt_byteLength]

/-- The places of a text are those that counting from its start passes through. -/
theorem in_iff {p : Position} {cs : List Char} :
    p.In cs ↔ ∃ before after, cs = before ++ after ∧ p = start.after before := by
  constructor
  · rintro ⟨⟨before, after, rfl, ho⟩, hp⟩
    rw [← ho, LineIndex.positionAt_byteLength] at hp
    exact ⟨before, after, rfl, hp.symm⟩
  · rintro ⟨before, after, rfl, rfl⟩
    exact in_after before after

private theorem exists_after_of_offset_le {p q : Position} {cs : List Char} (hp : p.In cs)
    (hq : q.In cs)
    (h : p.offset ≤ q.offset) : ∃ between, q = p.after between := by
  obtain ⟨as, as', rfl, rfl⟩ := in_iff.mp hp
  obtain ⟨bs, bs', he, rfl⟩ := in_iff.mp hq
  simp only [offset_start_after] at h
  obtain ⟨ms, rfl, -⟩ := exists_append_of_byteLength_le he h
  exact ⟨ms, after_append start as ms⟩

theorem le_iff_offset_le {p q : Position} {cs : List Char} (hp : p.In cs) (hq : q.In cs) :
    p ≤ q ↔ p.offset ≤ q.offset := by
  constructor
  · intro h
    by_contra hlt
    obtain ⟨ms, rfl⟩ := exists_after_of_offset_le hq hp (by omega)
    refine not_after_le q (fun hm => hlt ?_) h
    rw [hm]
    exact Nat.le_refl _
  · intro h
    obtain ⟨ms, rfl⟩ := exists_after_of_offset_le hp hq h
    exact le_after p ms

theorem le_trans {p q r : Position} (hpq : p ≤ q) (hqr : q ≤ r) : p ≤ r := by
  rcases hpq with hpq | ⟨hpq, hc⟩
  · rcases hqr with hqr | ⟨hqr, -⟩
    · exact .inl (hpq.trans hqr)
    · exact .inl (hqr ▸ hpq)
  · rcases hqr with hqr | ⟨hqr, hc'⟩
    · exact .inl (hpq ▸ hqr)
    · exact .inr ⟨hpq.trans hqr, hc.trans hc'⟩

theorem line_le_of_le {p q : Position} (h : p ≤ q) : p.line ≤ q.line := by
  rcases h with hlt | ⟨he, -⟩
  · exact Nat.le_of_lt hlt
  · exact Nat.le_of_eq he

theorem In.eq_of_le {p q : Position} {cs : List Char} (hp : p.In cs) (hq : q.In cs) (h : p ≤ q)
    (h' : q ≤ p) : p = q := by
  have hle := (le_iff_offset_le hp hq).mp h
  have hge := (le_iff_offset_le hq hp).mp h'
  rw [← hp.2, ← hq.2, Nat.le_antisymm hle hge]

end Position

namespace Range

/-- A range of a text: its ends are places of the text, not reversed, and `text` stands between
them. -/
structure Spans (r : Range) (cs text : List Char) : Prop where
  start : r.start.In cs
  stop : r.stop.In cs
  forward : r.start.offset ≤ r.stop.offset
  slice : slice? r.start.offset r.stop.offset cs = some text

theorem spans_middle (before text after : List Char) :
    (⟨Position.start.after before, Position.start.after (before ++ text)⟩ : Range).Spans
      (before ++ text ++ after) text := by
  refine ⟨?_, Position.in_after (before ++ text) after, ?_, ?_⟩
  · rw [List.append_assoc]
    exact Position.in_after before (text ++ after)
  · simp only [Position.offset_start_after, byteLength_append]
    omega
  · simp only [Position.offset_start_after]
    exact slice?_middle before text after

/-- The text under a range stands in the whole text between the ends of the range. -/
theorem Spans.exists_middle {r : Range} {cs text : List Char} (h : r.Spans cs text) :
    ∃ before after, cs = before ++ text ++ after ∧ byteLength before = r.start.offset ∧
      byteLength (before ++ text) = r.stop.offset := by
  obtain ⟨before, rest, rfl, ho⟩ := h.start.1
  obtain ⟨before', after, he, ho'⟩ := h.stop.1
  obtain ⟨middle, rfl, rfl⟩ := exists_append_of_byteLength_le he (by
    rw [ho, ho']
    exact h.forward)
  have hs := h.slice
  rw [← ho, ← ho', ← List.append_assoc, slice?_middle, Option.some_inj] at hs
  subst hs
  exact ⟨before, after, (List.append_assoc ..).symm, ho, ho'⟩

theorem Spans.start_lt_stop {r : Range} {cs text : List Char} (h : r.Spans cs text)
    (hn : text ≠ []) : r.start.offset < r.stop.offset := by
  obtain ⟨before, after, -, ho, hz⟩ := h.exists_middle
  have := byteLength_pos hn
  rw [byteLength_append] at hz
  omega

/-- Of two ranges that start at one place the shorter has a beginning of the text of the other. -/
theorem Spans.isPrefix {r r' : Range} {cs text text' : List Char} (h : r.Spans cs text)
    (h' : r'.Spans cs text') (hs : r.start = r'.start) (hz : r.stop.offset ≤ r'.stop.offset) :
    text <+: text' := by
  obtain ⟨before, after, he, ho, hp⟩ := h.exists_middle
  obtain ⟨before', after', rfl, ho', hp'⟩ := h'.exists_middle
  rw [List.append_assoc, List.append_assoc] at he
  obtain ⟨rfl, ht⟩ := append_inj_of_byteLength he.symm (by rw [ho, ho', hs])
  rw [byteLength_append] at hp hp'
  obtain ⟨rest, hr, -⟩ := exists_append_of_byteLength_le ht (by omega)
  exact ⟨rest, hr.symm⟩

/-- One range holds another: both ends of the inner one lie in it, by line and column as by
bytes. -/
structure Holds (outer inner : Range) : Prop where
  start : inner.start ∈ outer
  stop : inner.stop ∈ outer
  start_offset : outer.start.offset ≤ inner.start.offset
  stop_offset : inner.stop.offset ≤ outer.stop.offset

theorem Holds.trans {r s t : Range} (hrs : r.Holds s) (hst : s.Holds t) : r.Holds t :=
  ⟨⟨Position.le_trans hrs.start.1 hst.start.1, Position.le_trans hst.start.2 hrs.stop.2⟩,
    ⟨Position.le_trans hrs.start.1 hst.stop.1, Position.le_trans hst.stop.2 hrs.stop.2⟩,
    hrs.start_offset.trans hst.start_offset, hst.stop_offset.trans hrs.stop_offset⟩

theorem Holds.mem {outer inner : Range} (h : outer.Holds inner) {p : Position} (hp : p ∈ inner) :
    p ∈ outer :=
  ⟨Position.le_trans h.start.1 hp.1, Position.le_trans hp.2 h.stop.2⟩

theorem holds_after (p : Position) (lead text trail : List Char) :
    (⟨p, p.after (lead ++ text ++ trail)⟩ : Range).Holds
      ⟨p.after lead, p.after (lead ++ text)⟩ := by
  refine ⟨⟨p.le_after lead, ?_⟩, ⟨p.le_after _, p.le_after_append _ trail⟩, ?_, ?_⟩
  · rw [List.append_assoc]
    exact p.le_after_append lead _
  · simp only [Position.offset_after]
    omega
  · simp only [Position.offset_after, byteLength_append]
    omega

theorem Spans.holds {r : Range} {cs text : List Char} (h : r.Spans cs text) :
    (⟨.start, Position.start.after cs⟩ : Range).Holds r := by
  have hb : ∀ p : Position, p.In cs → p ∈ (⟨.start, Position.start.after cs⟩ : Range) := by
    intro p hp
    obtain ⟨before, after, rfl, rfl⟩ := Position.in_iff.mp hp
    exact ⟨Position.le_after _ _, Position.le_after_append _ _ _⟩
  refine ⟨hb _ h.start, hb _ h.stop, Nat.zero_le _, ?_⟩
  rw [Position.offset_start_after]
  exact h.stop.1.le_byteLength

/-- A range of a text holds a place of it by line and column if it does so by bytes. -/
theorem mem_iff_offset {r : Range} {cs text : List Char} (hr : r.Spans cs text) {p : Position}
    (hp : p.In cs) : p ∈ r ↔ r.start.offset ≤ p.offset ∧ p.offset ≤ r.stop.offset := by
  rw [mem_iff, Position.le_iff_offset_le hr.start hp, Position.le_iff_offset_le hp hr.stop]

end Range

namespace LineIndex

theorem positionAt_in {cs : List Char} {b : Nat} (h : BoundaryAt cs b) :
    ((ofText cs).positionAt b).In cs ∧ ((ofText cs).positionAt b).offset = b := by
  obtain ⟨as, bs, rfl, rfl⟩ := h
  rw [positionAt_byteLength]
  exact ⟨Position.in_after as bs, Position.offset_start_after as⟩

/-- A range between two places of a text holds those of its places whose offsets lie between. -/
theorem mem_range_iff {cs : List Char} {i j k : Nat} (hi : BoundaryAt cs i) (hj : BoundaryAt cs j)
    (hk : BoundaryAt cs k) :
    (ofText cs).positionAt k ∈ (ofText cs).range i j ↔ i ≤ k ∧ k ≤ j := by
  obtain ⟨hpi, hoi⟩ := positionAt_in hi
  obtain ⟨hpj, hoj⟩ := positionAt_in hj
  obtain ⟨hpk, hok⟩ := positionAt_in hk
  rw [range, Range.mem_iff, Position.le_iff_offset_le hpi hpk, Position.le_iff_offset_le hpk hpj,
    hoi, hoj, hok]

end LineIndex

end ConceptMarkup
