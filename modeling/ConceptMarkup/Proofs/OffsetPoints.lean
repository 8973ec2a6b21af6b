import Mathlib.Data.Nat.PSub
import ConceptMarkup.Proofs.LineSearch
import ConceptMarkup.Proofs.OffsetScan
import ConceptMarkup.Proofs.WireClamps

/-! Points of the wire by byte offset. Either way of the conversion searches for line feeds and cuts
the text after them. The places and points are an editor's own and need not fit the text, or even
themselves; still every cut is made where a line begins or where the text ends. -/
namespace ConceptMarkup
open Text

namespace Text

def feedAt? : List Char → Option Nat
  | [] => none
  | c :: cs => if c = '\n' then some 0 else (feedAt? cs).map (c.utf8Size + ·)

def lastFeedAt? : List Char → Option Nat
  | [] => none
  | c :: cs => ((lastFeedAt? cs).map (c.utf8Size + ·)).or (if c = '\n' then some 0 else none)

private theorem feedAt?_line {line : List Char} (h : '\n' ∉ line) : feedAt? line = none := by
  induction line with
  | nil => rfl
  | cons c line ih =>
    obtain ⟨hc, hl⟩ := List.ne_and_not_mem_of_not_mem_cons h
    rw [feedAt?, if_neg hc.symm, ih hl, Option.map_none]

private theorem feedAt?_append {line : List Char} (rest : List Char) (h : '\n' ∉ line) :
    feedAt? (line ++ '\n' :: rest) = some (byteLength line) := by
  induction line with
  | nil => rfl
  | cons c line ih =>
    obtain ⟨hc, hl⟩ := List.ne_and_not_mem_of_not_mem_cons h
    rw [List.cons_append, feedAt?, if_neg hc.symm, ih hl, Option.map_some, byteLength_cons]

private theorem lastFeedAt?_line {line : List Char} (h : '\n' ∉ line) :
    lastFeedAt? line = none := by
  induction line with
  | nil => rfl
  | cons c line ih =>
    obtain ⟨hc, hl⟩ := List.ne_and_not_mem_of_not_mem_cons h
    rw [lastFeedAt?, if_neg hc.symm, ih hl]
    rfl

private theorem lastFeedAt?_append (before : List Char) {line : List Char} (h : '\n' ∉ line) :
    lastFeedAt? (before ++ '\n' :: line) = some (byteLength before) := by
  induction before with
  | nil =>
    rw [List.nil_append, lastFeedAt?, lastFeedAt?_line h]
    rfl
  | cons c before ih =>
    rw [List.cons_append, lastFeedAt?, ih, Option.map_some, Option.some_or, byteLength_cons]

private theorem exists_cut_of_boundaryAt {cs : List Char} {n : Nat} (h : BoundaryAt cs n) :
    ∃ before rest, splitBytes? n cs = some (before, rest) ∧ from? n cs = some rest := by
  obtain ⟨before, rest, rfl, rfl⟩ := h
  exact ⟨before, rest, splitBytes?_byteLength before rest, from?_byteLength before rest⟩

end Text

namespace LineIndex

private theorem lineStarts_line (o : Nat) {line : List Char} (h : '\n' ∉ line) :
    lineStarts o line = [] := by
  rw [← List.length_eq_zero_iff, length_lineStarts, List.count_eq_zero.mpr h]

private theorem boundaryAt_of_lineStart? {cs : List Char} {n m : Nat}
    (h : (ofText cs).lineStart? n = some m) : BoundaryAt cs m := by
  cases n with
  | zero => cases h
  | succ n =>
    by_cases hn : n ≤ cs.count '\n'
    · obtain ⟨done, line, rest, hl⟩ := exists_lineAt hn
      have hd := lineStart?_closed done (line ++ rest) hl.start
      rw [← List.append_assoc, ← hl.whole, hl.count, h] at hd
      obtain rfl := Option.some.inj hd
      exact ⟨done, line ++ rest, by rw [hl.whole, List.append_assoc], rfl⟩
    · rw [lineStart?_eq_none (by omega)] at h
      cases h

end LineIndex

namespace Protocol

def lastLine? (cs : List Char) : Option (List Char) := from? ((lastFeedAt? cs).elim 0 (· + 1)) cs

private theorem lastLine?_eq (cs : List Char) : lastLine? cs = some (lastLine cs) := by
  obtain ⟨done, hd, hs, hn⟩ := exists_append_lastLine cs
  generalize lastLine cs = line at hd hn ⊢
  subst hd
  rcases hs with rfl | hs
  · rw [lastLine?, List.nil_append, lastFeedAt?_line hn]
    exact from?_byteLength [] line
  · obtain ⟨before, rfl⟩ := List.getLast?_eq_some_iff.mp hs
    have hf := from?_byteLength (before ++ ['\n']) line
    rw [byteLength_append] at hf
    rw [lastLine?, List.append_assoc, List.singleton_append, lastFeedAt?_append before hn,
      ← List.singleton_append, ← List.append_assoc]
    exact hf

/-- The units before a column of a line. The line after the second line feed is the third. -/
def unitsBeforeColumn? (source : List Char) (line column : Nat) : Option Nat := do
  let start ←
    if line ≤ 1 then some (some 0)
    else (Nat.psub line 2).map fun k => (LineIndex.lineStarts 0 source)[k]?
  match start with
  | some start =>
    let rest ← from? start source
    some (unitLength ((rest.takeWhile (· ≠ '\n')).take (column - 1)))
  | none => some (column - 1)

private theorem unitsBeforeColumn?_eq (source : List Char) (line column : Nat) :
    unitsBeforeColumn? source line column = some (unitsBeforeColumn source line column) := by
  by_cases hline : line ≤ 1
  · have hstart : (if line = 0 then some 0 else (LineIndex.ofText source).lineStart? line) =
        some 0 := by
      rcases Nat.le_one_iff_eq_zero_or_eq_one.mp hline with rfl | rfl <;> rfl
    have hfrom : from? 0 source = some source := from?_byteLength [] source
    have hsplit : splitBytes? 0 source = some ([], source) := splitBytes?_byteLength [] source
    simp only [unitsBeforeColumn?, unitsBeforeColumn, hline, hstart, hfrom, hsplit, ↓reduceIte,
      Option.bind_eq_bind, Option.bind_some]
  · obtain ⟨k, rfl⟩ : ∃ k, line = k + 2 := ⟨line - 2, by omega⟩
    have hsub : Nat.psub (k + 2) 2 = some k := rfl
    have hstart : (LineIndex.ofText source).lineStart? (k + 2) =
        (LineIndex.lineStarts 0 source)[k]? := rfl
    rw [unitsBeforeColumn?, if_neg hline, hsub, unitsBeforeColumn, if_neg (by omega), hstart]
    cases hn : (LineIndex.lineStarts 0 source)[k]? with
    | none => simp only [Option.map_some, hn, Option.bind_eq_bind, Option.bind_some,
        Option.bind_none]
    | some start =>
      obtain ⟨before, rest, hsplit, hfrom⟩ :=
        exists_cut_of_boundaryAt (LineIndex.boundaryAt_of_lineStart? (hstart.trans hn))
      simp only [Option.map_some, hn, hsplit, hfrom, Option.bind_eq_bind, Option.bind_some]

def Point.ofPosition? (source : List Char) (p : Position) : Option Point := do
  let character ← match beforeOnLine? source p.line p.offset with
    | some before => (lastLine? before).map unitLength
    | none => unitsBeforeColumn? source p.line p.column
  some { line := .ofNatClamp (p.line - 1), character := .ofNatClamp character }

theorem Point.ofPosition?_eq (source : List Char) (p : Position) :
    Point.ofPosition? source p = some (.ofPosition source p) := by
  rw [ofPosition?, ofPosition]
  cases beforeOnLine? source p.line p.offset with
  | some before => simp only [lastLine?_eq, Option.map_some, Option.bind_eq_bind, Option.bind_some]
  | none => simp only [unitsBeforeColumn?_eq, Option.bind_eq_bind, Option.bind_some]

/-- Goes on to the start of the next line a number of times, behind the last line to the end of the
text. -/
def skipLines? (source : List Char) : Nat → Nat → Option Nat
  | 0, start => some start
  | n + 1, start => do
    match feedAt? (← from? start source) with
    | some i => skipLines? source n (start + i + 1)
    | none => some (byteLength source)

private theorem skipLines?_eq (before cs : List Char) (n : Nat) :
    skipLines? (before ++ cs) n (byteLength before) =
      some ((byteLength before :: LineIndex.lineStarts (byteLength before) cs)[n]?.getD
        (byteLength (before ++ cs))) := by
  induction n generalizing before cs with
  | zero => rfl
  | succ n ih =>
    rw [skipLines?, from?_byteLength, List.getElem?_cons_succ]
    by_cases hn : '\n' ∈ cs
    · obtain ⟨line, rest, rfl, hl⟩ := List.eq_append_cons_of_mem hn
      have hnext := ih (before ++ line ++ ['\n']) rest
      have hstarts : LineIndex.lineStarts (byteLength before) (line ++ '\n' :: rest) =
          byteLength (before ++ line ++ ['\n']) ::
            LineIndex.lineStarts (byteLength (before ++ line ++ ['\n'])) rest := by
        rw [LineIndex.lineStarts_append, LineIndex.lineStarts_line _ hl, byteLength_append,
          byteLength_append]
        rfl
      have hoffset : byteLength before + byteLength line + 1 =
          byteLength (before ++ line ++ ['\n']) := by
        rw [byteLength_append, byteLength_append]
        rfl
      have hs : before ++ line ++ ['\n'] ++ rest = before ++ (line ++ '\n' :: rest) := by
        simp only [List.append_assoc, List.singleton_append]
      rw [hs] at hnext
      rw [hstarts, ← hnext, ← hoffset]
      simp only [Option.bind_eq_bind, Option.bind_some, feedAt?_append rest hl]
    · rw [LineIndex.lineStarts_line _ hn]
      simp only [Option.bind_eq_bind, Option.bind_some, feedAt?_line hn]
      rfl

def Point.toPosition? (source : List Char) (p : Point) : Option Position := do
  let start ← skipLines? source p.line.toNat 0
  let rest ← from? start source
  (LineIndex.ofText source).locate?
    (start + byteLength (untilUnits p.character.toNat rest))

theorem Point.toPosition?_eq (source : List Char) (p : Point) :
    p.toPosition? source = some (p.toPosition source) := by
  have hskip := skipLines?_eq [] source p.line.toNat
  have hstart : (0 :: LineIndex.lineStarts 0 source)[p.line.toNat]? =
      (LineIndex.ofText source).lineStart? (p.line.toNat + 1) :=
    LineIndex.getElem?_table (.ofText source) p.line.toNat
  rw [List.nil_append, byteLength_nil, hstart] at hskip
  have hb : BoundaryAt source (((LineIndex.ofText source).lineStart? (p.line.toNat + 1)).getD
      (byteLength source)) := by
    cases hn : (LineIndex.ofText source).lineStart? (p.line.toNat + 1) with
    | none => exact ⟨source, [], (List.append_nil source).symm, rfl⟩
    | some start => exact LineIndex.boundaryAt_of_lineStart? hn
  obtain ⟨before, rest, hsplit, hfrom⟩ := exists_cut_of_boundaryAt hb
  simp only [toPosition?, toPosition, hskip, hfrom, hsplit, LineIndex.locate?_eq,
    Option.bind_eq_bind, Option.bind_some, Option.elim_some]

end Protocol

end ConceptMarkup
