import Mathlib.Data.Prod.Lex
import Mathlib.Order.Bounds.Defs
import ConceptMarkup.Proofs.ColumnPlaces

/-! A byte offset is looked up by walking back to a boundary, by halving the table of line starts
and by cutting the text. Each of these steps could fail for some table or text; for the index of a
text none does, and the place that is found tells how much stands before it. -/
namespace ConceptMarkup
open Text

namespace Text

/-- The UTF-8 encoding of a text. -/
def utf8 (cs : List Char) : List UInt8 := cs.flatMap String.utf8EncodeChar

private theorem length_utf8 (cs : List Char) : (utf8 cs).length = byteLength cs := by
  induction cs with
  | nil => rfl
  | cons c cs ih =>
    rw [utf8, List.flatMap_cons, List.length_append, String.length_utf8EncodeChar, ← utf8, ih,
      byteLength_cons]

private theorem le_of_mem_utf8EncodeChar {c : Char} (h : 127 < c.val.toNat) {b : UInt8}
    (hb : b ∈ String.utf8EncodeChar c) : 128 ≤ b.toNat := by
  unfold String.utf8EncodeChar at hb
  rw [if_neg (Nat.not_le_of_gt h)] at hb
  split at hb
  · simp only [List.mem_cons, List.not_mem_nil, or_false] at hb
    rcases hb with rfl | rfl <;> simp only [UInt8.toNat_ofNat'] <;> omega
  · split at hb
    · simp only [List.mem_cons, List.not_mem_nil, or_false] at hb
      rcases hb with rfl | rfl | rfl <;> simp only [UInt8.toNat_ofNat'] <;> omega
    · simp only [List.mem_cons, List.not_mem_nil, or_false] at hb
      rcases hb with rfl | rfl | rfl | rfl <;> simp only [UInt8.toNat_ofNat'] <;> omega

private theorem count_utf8EncodeChar (c : Char) :
    (String.utf8EncodeChar c).count 10 = if c = '\n' then 1 else 0 := by
  by_cases h : c.val.toNat ≤ 127
  · have he : String.utf8EncodeChar c = [UInt8.ofNat c.val.toNat] := if_pos h
    have hn : UInt8.ofNat c.val.toNat = 10 ↔ c = '\n' := by
      rw [← UInt8.toNat_inj, UInt8.toNat_ofNat', Nat.mod_eq_of_lt (by omega), ← Char.toNat_inj]
      rfl
    rw [he, List.count_singleton]
    simp only [beq_iff_eq, hn]
  · have hn : c ≠ '\n' := by
      rintro rfl
      exact h (by decide)
    rw [if_neg hn, List.count_eq_zero]
    intro hb
    exact absurd (le_of_mem_utf8EncodeChar (by omega) hb) (by decide)

private theorem count_utf8 (cs : List Char) : (utf8 cs).count 10 = cs.count '\n' := by
  induction cs with
  | nil => rfl
  | cons c cs ih =>
    rw [utf8, List.flatMap_cons, List.count_append, count_utf8EncodeChar, ← utf8, ih,
      List.count_cons, Nat.add_comm]
    simp only [beq_iff_eq]

private theorem take_utf8_append (as bs : List Char) :
    (utf8 (as ++ bs)).take (byteLength as) = utf8 as := by
  rw [utf8, List.flatMap_append, ← utf8, ← utf8, ← length_utf8, List.take_left]

private theorem exists_append_fitting (n : Nat) (cs : List Char) :
    byteLength (fitting n cs) ≤ n ∧ ∃ after, cs = fitting n cs ++ after := by
  fun_induction fitting n cs with
  | case1 => exact ⟨Nat.zero_le _, [], rfl⟩
  | case2 n c cs hc ih =>
    obtain ⟨hle, after, he⟩ := ih
    refine ⟨?_, after, ?_⟩
    · rw [byteLength_cons]
      omega
    · rw [List.cons_append, ← he]
  | case3 n c cs hc => exact ⟨Nat.zero_le _, c :: cs, rfl⟩

private theorem byteLength_le_of_fitting {n : Nat} {as bs : List Char} (h : byteLength as ≤ n) :
    byteLength as ≤ byteLength (fitting n (as ++ bs)) := by
  induction as generalizing n with
  | nil => exact Nat.zero_le _
  | cons a as ih =>
    rw [byteLength_cons] at h
    rw [List.cons_append, fitting, if_pos (by omega), byteLength_cons, byteLength_cons]
    have := ih (n := n - a.utf8Size) (by omega)
    omega

private theorem isGreatest_fitting (n : Nat) (cs : List Char) :
    IsGreatest {b | BoundaryAt cs b ∧ b ≤ min n (byteLength cs)} (byteLength (fitting n cs)) := by
  obtain ⟨hle, after, he⟩ := exists_append_fitting n cs
  have hb : BoundaryAt cs (byteLength (fitting n cs)) := ⟨_, after, he, rfl⟩
  constructor
  · exact ⟨hb, Nat.le_min.mpr ⟨hle, hb.le_byteLength⟩⟩
  · rintro _ ⟨⟨before, rest, rfl, rfl⟩, hm⟩
    exact byteLength_le_of_fitting (hm.trans (Nat.min_le_left _ _))

/-- Walks back from an offset to a boundary. From 0 there is no way back. -/
def boundaryBefore? (cs : List Char) (n : Nat) : Option Nat :=
  if (splitBytes? n cs).isSome then some n
  else match n with
    | 0 => none
    | n + 1 => boundaryBefore? cs n

private theorem boundaryBefore?_eq {cs : List Char} {n m : Nat}
    (h : IsGreatest {b | BoundaryAt cs b ∧ b ≤ n} m) : boundaryBefore? cs n = some m := by
  induction n with
  | zero =>
    obtain rfl : m = 0 := Nat.le_zero.mp h.1.2
    rw [boundaryBefore?, if_pos (boundaryAt_iff_splitBytes?.mp h.1.1)]
  | succ n ih =>
    rw [boundaryBefore?]
    by_cases hb : (splitBytes? (n + 1) cs).isSome
    · have hn : n + 1 ≤ m := h.2 ⟨boundaryAt_iff_splitBytes?.mpr hb, Nat.le_refl _⟩
      rw [if_pos hb]
      exact congrArg some (Nat.le_antisymm hn h.1.2)
    · rw [if_neg hb]
      have hne : m ≠ n + 1 := fun he => hb (boundaryAt_iff_splitBytes?.mp (he ▸ h.1.1))
      refine ih ⟨⟨h.1.1, ?_⟩, fun b hb => h.2 ⟨hb.1, Nat.le_succ_of_le hb.2⟩⟩
      exact Nat.le_of_lt_succ (Nat.lt_of_le_of_ne h.1.2 hne)

end Text

namespace Position

private theorem start_after (cs : List Char) :
    start.after cs =
      ⟨cs.count '\n' + 1, (Protocol.lastLine cs).length + 1, byteLength cs⟩ := by
  have hl := line_after start cs
  have hc := Protocol.column_start_after cs
  have ho := offset_start_after cs
  rw [Nat.add_comm] at hl
  cases h : start.after cs
  rw [h] at hl hc ho
  exact (mk.injEq ..).mpr ⟨hl, hc, ho⟩

/-- A place counts what a text has before its offset: the line feeds among the bytes, and the
characters of its line. -/
structure Counts (p : Position) (cs : List Char) : Prop where
  line : p.line = 1 + ((utf8 cs).take p.offset).count 10
  column : ∃ done part rest, cs = done ++ part ++ rest ∧ p.offset = byteLength (done ++ part) ∧
    AtLineStart done ∧ '\n' ∉ part ∧ p.column = 1 + part.length

private theorem counts_after (as bs : List Char) : (start.after as).Counts (as ++ bs) := by
  obtain ⟨done, hd, hs, hn⟩ := Protocol.exists_append_lastLine as
  rw [start_after]
  constructor
  · simp only
    rw [take_utf8_append, count_utf8, Nat.add_comm]
  · refine ⟨done, Protocol.lastLine as, bs, ?_, ?_, hs, hn, Nat.add_comm _ _⟩
    · rw [← hd]
    · rw [← hd]

/-- Line and column of a place, compared line first. -/
def key (p : Position) : Nat ×ₗ Nat := toLex (p.line, p.column)

private theorem key_lt_key_iff {p q : Position} : p.key < q.key ↔ ¬ q ≤ p := by
  have hle : q ≤ p ↔ q.line < p.line ∨ q.line = p.line ∧ q.column ≤ p.column := Iff.rfl
  rw [key, key, Prod.Lex.toLex_lt_toLex, hle]
  simp only
  omega

end Position

/-- Where a number is in a rising table: at an entry, or in the gap before the next entry. -/
inductive Slot where
  | entry (i : Nat)
  | gap (next : Nat)
deriving DecidableEq, Repr

namespace Slot

/-- The index of the last entry that is not greater than the number. In the gap before the first
entry there is none. -/
def last? : Slot → Option Nat
  | entry i => some i
  | gap 0 => none
  | gap (n + 1) => some n

/-- Halves the stretch from `lo` to `hi` of a table until `x` is found or nothing is left of the
stretch. -/
def search? (table : List Nat) (x lo hi : Nat) : Option Slot :=
  if lo < hi then
    let mid := lo + (hi - lo) / 2
    match table[mid]? with
    | none => none
    | some m =>
      if m = x then some (entry mid)
      else if m < x then search? table x (mid + 1) hi
      else search? table x lo mid
  else some (gap lo)
termination_by hi - lo

private theorem search?_eq {table : List Nat} {x n : Nat} (hs : table.Pairwise (· < ·))
    (hx : ∀ i m, table[i]? = some m → (m ≤ x ↔ i ≤ n)) (hn : n < table.length) {lo hi : Nat}
    (hlo : lo ≤ n + 1) (hhi : n + 1 ≤ hi) (hlen : hi ≤ table.length) :
    (search? table x lo hi).bind last? = some n := by
  fun_induction search? table x lo hi with
  | case1 lo hi hlt mid hm =>
    rw [List.getElem?_eq_none_iff] at hm
    omega
  | case2 lo hi hlt mid hm =>
    have hle : mid ≤ n := (hx mid x hm).mp (Nat.le_refl x)
    by_contra hne
    have hmid : mid < n := Nat.lt_of_le_of_ne hle fun he => hne (he ▸ rfl)
    have := (hx n table[n] (List.getElem?_eq_getElem hn)).mpr (Nat.le_refl n)
    have := List.pairwise_iff_getElem.mp hs mid n (hmid.trans hn) hn hmid
    obtain ⟨_, rfl⟩ := List.getElem?_eq_some_iff.mp hm
    omega
  | case3 lo hi hlt mid m hm hne hmx ih =>
    have := (hx mid m hm).mp (Nat.le_of_lt hmx)
    exact ih (by omega) hhi hlen
  | case4 lo hi hlt mid m hm hne hmx ih =>
    have := (hx mid m hm).not.mp (by omega)
    exact ih hlo (by omega) (by omega)
  | case5 lo hi hlt =>
    obtain rfl : lo = n + 1 := by omega
    rfl

end Slot

namespace LineIndex

private theorem lineStarts_sorted (o : Nat) (cs : List Char) :
    (lineStarts o cs).Pairwise (· < ·) := by
  induction cs generalizing o with
  | nil => exact .nil
  | cons c cs ih =>
    simp only [lineStarts]
    split
    · exact .cons (fun n hn => (lineStarts_bounds hn).1) (ih _)
    · exact ih _

def table (index : LineIndex) : List Nat := 0 :: index.starts

theorem getElem?_table (index : LineIndex) (n : Nat) :
    index.table[n]? = index.lineStart? (n + 1) := by
  cases n <;> rfl

private theorem table_sorted (cs : List Char) : (ofText cs).table.Pairwise (· < ·) :=
  .cons (fun _ hn => (lineStarts_bounds hn).1) (lineStarts_sorted 0 cs)

private theorem table_append (as bs : List Char) :
    (ofText (as ++ bs)).table = (0 :: lineStarts 0 as) ++ lineStarts (byteLength as) bs := by
  rw [table, ofText, lineStarts_append, Nat.zero_add, List.cons_append]

private theorem le_iff_of_table {as bs : List Char} {i m : Nat}
    (h : (ofText (as ++ bs)).table[i]? = some m) : m ≤ byteLength as ↔ i ≤ as.count '\n' := by
  rw [table_append] at h
  by_cases hi : i < (0 :: lineStarts 0 as).length
  · rw [List.getElem?_append_left hi] at h
    rw [List.length_cons, length_lineStarts] at hi
    refine iff_of_true ?_ (Nat.le_of_lt_succ hi)
    rcases List.mem_cons.mp (List.mem_of_getElem? h) with rfl | hm
    · exact Nat.zero_le _
    · have := lineStarts_bounds hm
      omega
  · rw [List.getElem?_append_right (Nat.le_of_not_lt hi)] at h
    rw [List.length_cons, length_lineStarts] at hi
    have := lineStarts_bounds (List.mem_of_getElem? h)
    refine iff_of_false ?_ ?_
    · omega
    · omega

/-- The lookup of a byte offset step by step. A step that cannot be taken ends it. -/
def locate? (index : LineIndex) (offset : Nat) : Option Position := do
  let boundary ← boundaryBefore? index.text (min offset (byteLength index.text))
  let line ← (Slot.search? index.table boundary 0 index.table.length).bind Slot.last?
  let start ← index.table[line]?
  let part ← slice? start boundary index.text
  some ⟨line + 1, part.length + 1, boundary⟩

private theorem positionAt_eq_after (cs : List Char) (o : Nat) :
    (ofText cs).positionAt o = Position.start.after (fitting o cs) := by
  obtain ⟨-, after, he⟩ := exists_append_fitting o cs
  have hb : (ofText cs).boundary (byteLength (fitting o cs)) = (ofText cs).boundary o := by
    have := fitting_byteLength (fitting o cs) after
    rw [← he] at this
    exact congrArg byteLength this
  have hp := positionAt_byteLength (fitting o cs) after
  rw [← he] at hp
  rw [← hp, positionAt, positionAt, hb]

/-- No step of the lookup fails, and it comes to the place of the offset. -/
theorem locate?_eq (cs : List Char) (o : Nat) :
    (ofText cs).locate? o = some ((ofText cs).positionAt o) := by
  obtain ⟨-, bs, he⟩ := exists_append_fitting o cs
  have hb := boundaryBefore?_eq (isGreatest_fitting o cs)
  rw [positionAt_eq_after]
  generalize fitting o cs = as at he hb ⊢
  subst he
  obtain ⟨done, hd, hs, hn⟩ := Protocol.exists_append_lastLine as
  have hc : as.count '\n' = done.count '\n' := by
    conv_lhs => rw [hd]
    rw [List.count_append, Protocol.count_lastLine, Nat.add_zero]
  have hstart : (ofText (as ++ bs)).table[as.count '\n']? = some (byteLength done) := by
    rw [getElem?_table, hc]
    conv_lhs => rw [hd]
    rw [List.append_assoc]
    exact lineStart?_closed done _ hs
  have hlen := (List.getElem?_eq_some_iff.mp hstart).1
  have hline := Slot.search?_eq (table_sorted (as ++ bs)) (fun i m => le_iff_of_table) hlen
    (Nat.zero_le _) hlen (Nat.le_refl _)
  have hpart : slice? (byteLength done) (byteLength as) (as ++ bs) =
      some (Protocol.lastLine as) := by
    have := slice?_middle done (Protocol.lastLine as) bs
    rwa [← hd] at this
  rw [Position.start_after]
  simp only [locate?, show (ofText (as ++ bs)).text = as ++ bs from rfl, hb, hline, hstart, hpart,
    Option.bind_eq_bind, Option.bind_some]

/-- An offset beyond the end, and one inside the first character. -/
example : (ofText "é\n𝄞".toList).locate? 9 = some ⟨2, 2, 7⟩ ∧
    (ofText "é\n𝄞".toList).locate? 1 = some ⟨1, 1, 0⟩ := by
  rw [locate?_eq, locate?_eq]
  decide

private theorem strictMonoOn_key (cs : List Char) :
    StrictMonoOn (fun b => ((ofText cs).positionAt b).key) {b | BoundaryAt cs b} := by
  intro b hb b' hb' hlt
  obtain ⟨hp, ho⟩ := positionAt_in hb
  obtain ⟨hp', ho'⟩ := positionAt_in hb'
  refine Position.key_lt_key_iff.mpr ?_
  rw [Position.le_iff_offset_le hp' hp, ho, ho']
  exact Nat.not_le_of_gt hlt

/-- The lookup of an offset, whatever its size, takes every step and comes to the greatest boundary
up to it and up to the end of the text. The place found counts what stands before that boundary, is
the place of its own offset, and of two boundaries the later one has the greater line and column. -/
theorem positionAt_lookup (cs : List Char) (o : Nat) :
    (ofText cs).locate? o = some ((ofText cs).positionAt o) ∧
      IsGreatest {b | BoundaryAt cs b ∧ b ≤ min o (byteLength cs)}
        ((ofText cs).positionAt o).offset ∧
      ((ofText cs).positionAt o).Counts cs ∧
      (ofText cs).positionAt ((ofText cs).positionAt o).offset = (ofText cs).positionAt o ∧
      StrictMonoOn (fun b => ((ofText cs).positionAt b).key) {b | BoundaryAt cs b} := by
  have ho : ((ofText cs).positionAt o).offset = byteLength (fitting o cs) := by
    rw [positionAt_eq_after, Position.offset_start_after]
  obtain ⟨-, after, he⟩ := exists_append_fitting o cs
  refine ⟨locate?_eq cs o, ?_, ?_, ?_, strictMonoOn_key cs⟩
  · rw [ho]
    exact isGreatest_fitting o cs
  · have := Position.counts_after (fitting o cs) after
    rwa [← he, ← positionAt_eq_after] at this
  · have := positionAt_byteLength (fitting o cs) after
    rwa [← he, ← positionAt_eq_after, ← ho] at this

end LineIndex

end ConceptMarkup
