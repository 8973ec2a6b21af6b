import ConceptMarkup.Proofs.TokenLayout

/-! The tokens of a text in one pass from left to right. The pass holds only the place it has come
to and the text that is left; that a line begins it knows from the column. It yields the tokens that
the lines yield, and so its places are those of the line index. -/
namespace ConceptMarkup
open Text

private theorem Position.column_lt_after (p : Position) {cs : List Char} (hn : '\n' ∉ cs)
    (hne : cs ≠ []) : p.column < (p.after cs).column := by
  rw [after_line p hn]
  exact Nat.lt_add_of_pos_right (List.length_pos_of_ne_nil hne)

namespace Token

/-- What comes of a walk through a text: the characters passed, the place reached, the text left. -/
structure Walk where
  passed : List Char
  place : Position
  rest : List Char
deriving DecidableEq, Repr

/-- Walks on from `p` for as long as `go` holds of the place and the text left. -/
def walk (go : Position → List Char → Bool) (p : Position) : List Char → Walk
  | [] => ⟨[], p, []⟩
  | c :: cs =>
    if go p (c :: cs) then
      let w := walk go (p.advance c) cs
      { w with passed := c :: w.passed }
    else ⟨[], p, c :: cs⟩

def atMarker (p : Position) (cs : List Char) : Bool := p.column = 1 && (mentionAt? cs).isSome

private theorem not_atMarker_of_ne {p : Position} (h : p.column ≠ 1) (cs : List Char) :
    ¬ atMarker p cs := by
  simp [atMarker, h]

def walkIndent (p : Position) (cs : List Char) : Walk :=
  if p.column = 1 then walk (fun _ cs => cs.head?.any isIndent) p cs else ⟨[], p, cs⟩

def walkName : Position → List Char → Walk := walk fun _ cs => cs.head?.any isNameChar

def walkText : Position → List Char → Walk :=
  walk fun p cs => cs.head? ≠ some '\n' && !atMarker p cs

def next? (p : Position) : List Char → Option (Token × List Char)
  | [] => none
  | c :: cs =>
    if c = '\n' then some (lineFeed p, cs)
    else if atMarker p (c :: cs) then
      let w := walkName (p.advance c) cs
      some (⟨.marker (String.ofList w.passed), p, w.place⟩, w.rest)
    else
      let w := walkText p (c :: cs)
      some (⟨.text (String.ofList w.passed), p, w.place⟩, w.rest)

theorem walk_passed (go : Position → List Char → Bool) (p : Position) (cs : List Char) :
    cs = (walk go p cs).passed ++ (walk go p cs).rest ∧
      (walk go p cs).place = p.after (walk go p cs).passed := by
  induction cs generalizing p with
  | nil => exact ⟨rfl, rfl⟩
  | cons c cs ih =>
    rw [walk]
    split
    · obtain ⟨he, hp⟩ := ih (p.advance c)
      exact ⟨congrArg (c :: ·) he, hp⟩
    · exact ⟨rfl, rfl⟩

private theorem length_rest_walk_le (go : Position → List Char → Bool) (p : Position)
    (cs : List Char) : (walk go p cs).rest.length ≤ cs.length := by
  conv_rhs => rw [(walk_passed go p cs).1]
  rw [List.length_append]
  exact Nat.le_add_left _ _

private theorem length_next?_lt {p : Position} {cs rest : List Char} {t : Token}
    (h : next? p cs = some (t, rest)) : rest.length < cs.length := by
  cases cs with
  | nil => cases h
  | cons c cs =>
    rw [next?] at h
    split at h
    · cases h
      exact Nat.lt_succ_self _
    · next hc =>
      split at h
      · cases h
        exact Nat.lt_succ_of_le (length_rest_walk_le _ _ _)
      · next hm =>
        cases h
        rw [walkText, walk, if_pos (by simp [hc, hm])]
        exact Nat.lt_succ_of_le (length_rest_walk_le _ _ _)

private theorem length_rest_walkIndent_le (p : Position) (cs : List Char) :
    (walkIndent p cs).rest.length ≤ cs.length := by
  rw [walkIndent]
  split
  · exact length_rest_walk_le _ _ _
  · exact Nat.le_refl _

/-- The tokens from `p` on. Only where a line begins are blanks passed over. -/
def scan (p : Position) (cs : List Char) : List Token :=
  let w := walkIndent p cs
  match _h : next? w.place w.rest with
  | none => [finish w.place]
  | some (t, rest) => t :: scan t.range.stop rest
termination_by cs.length
decreasing_by exact Nat.lt_of_lt_of_le (length_next?_lt _h) (length_rest_walkIndent_le p cs)

theorem scan_of_some {p q : Position} {cs gap rest tail : List Char} {t : Token}
    (hw : walkIndent p cs = ⟨gap, q, rest⟩) (hn : next? q rest = some (t, tail)) :
    scan p cs = t :: scan t.range.stop tail := by
  rw [scan]
  split
  · next h =>
    rw [hw, hn] at h
    cases h
  · next h =>
    rw [hw, hn] at h
    cases h
    rfl

theorem scan_of_none {p q : Position} {cs gap rest : List Char}
    (hw : walkIndent p cs = ⟨gap, q, rest⟩) (hn : next? q rest = none) :
    scan p cs = [finish q] := by
  rw [scan]
  split
  · rw [hw]
  · next h =>
    rw [hw, hn] at h
    cases h

private theorem walk_append {go : Position → List Char → Bool} {p : Position} {as bs : List Char}
    (ha : ∀ xs y ys, as = xs ++ y :: ys → go (p.after xs) (y :: (ys ++ bs)))
    (hb : ∀ b rest, bs = b :: rest → ¬ go (p.after as) bs) :
    walk go p (as ++ bs) = ⟨as, p.after as, bs⟩ := by
  induction as generalizing p with
  | nil =>
    cases bs with
    | nil => rfl
    | cons b bs => exact if_neg (hb b bs rfl)
  | cons a as ih =>
    have hgo : go p (a :: (as ++ bs)) := ha [] a as rfl
    have := ih (p := p.advance a) (fun xs y ys he => ha (a :: xs) y ys (congrArg (a :: ·) he)) hb
    rw [List.cons_append, walk, if_pos hgo, this]
    rfl

private theorem walk_run {f : Char → Bool} (p : Position) {as bs : List Char} (ha : ∀ a ∈ as, f a)
    (hb : ∀ b ∈ bs.head?, ¬ f b) :
    walk (fun _ cs => cs.head?.any f) p (as ++ bs) = ⟨as, p.after as, bs⟩ := by
  refine walk_append ?_ ?_
  · rintro xs y ys rfl
    exact ha y (List.mem_append_right xs List.mem_cons_self)
  · rintro b rest rfl
    exact hb b rfl

private theorem walkIndent_run {p : Position} {gap rest : List Char} (hp : p.column = 1)
    (hg : ∀ c ∈ gap, isIndent c) (hr : ∀ c ∈ rest.head?, ¬ isIndent c) :
    walkIndent p (gap ++ rest) = ⟨gap, p.after gap, rest⟩ := by
  rw [walkIndent, if_pos hp]
  exact walk_run p hg hr

private theorem walkIndent_of_not_isIndent {p : Position} {cs : List Char}
    (h : p.column = 1 → ∀ c ∈ cs.head?, ¬ isIndent c) : walkIndent p cs = ⟨[], p, cs⟩ := by
  by_cases hp : p.column = 1
  · have hg : ∀ c ∈ ([] : List Char), isIndent c := by simp
    exact walkIndent_run hp hg (h hp)
  · exact if_neg hp

private theorem walkText_line {p : Position} {line tail : List Char} (hp : 0 < p.column)
    (hn : '\n' ∉ line) (ht : ∀ c ∈ tail.head?, c = '\n') (hm : ¬ atMarker p (line ++ tail)) :
    walkText p (line ++ tail) = ⟨line, p.after line, tail⟩ := by
  refine walk_append ?_ ?_
  · rintro xs y ys rfl
    have hy : y ≠ '\n' := fun he => hn (he ▸ List.mem_append_right xs List.mem_cons_self)
    have hmark : ¬ atMarker (p.after xs) (y :: (ys ++ tail)) := by
      cases xs with
      | nil => exact hm
      | cons x xs =>
        have := p.column_lt_after (fun h => hn (List.mem_append_left _ h)) (List.cons_ne_nil x xs)
        exact not_atMarker_of_ne (by omega) _
    simp [hy, hmark]
  · rintro b rest rfl
    obtain rfl := ht b rfl
    simp

private theorem next?_text {p : Position} {c : Char} {line tail : List Char} (hp : 0 < p.column)
    (hn : '\n' ∉ c :: line) (ht : ∀ c ∈ tail.head?, c = '\n')
    (hm : ¬ atMarker p (c :: line ++ tail)) :
    next? p (c :: line ++ tail) =
      some (⟨.text (String.ofList (c :: line)), p, p.after (c :: line)⟩, tail) := by
  have hc : c ≠ '\n' := fun he => hn (he ▸ List.mem_cons_self)
  have hw := walkText_line hp hn ht hm
  rw [List.cons_append] at hw hm ⊢
  rw [next?, if_neg hc, if_neg hm, hw]

private theorem next?_marker {p : Position} {name rest : List Char} (hp : p.column = 1)
    (hm : mentionAt? ('@' :: (name ++ rest)) = some name) :
    next? p ('@' :: (name ++ rest)) =
      some (⟨.marker (String.ofList name), p, p.after ('@' :: name)⟩, rest) := by
  obtain ⟨rest', he, hname, hr⟩ := mention_split hm
  obtain rfl := List.append_cancel_left (List.cons.inj he).2
  have hmark : atMarker p ('@' :: (name ++ rest)) := by simp [atMarker, hp, hm]
  have hw : walkName (p.advance '@') (name ++ rest) = ⟨name, p.after ('@' :: name), rest⟩ :=
    walk_run _ hname hr
  rw [next?, if_neg (by decide), if_pos hmark, hw]

private theorem scan_rest {p : Position} {line tail : List Char} (hp : 0 < p.column)
    (hn : '\n' ∉ line)
    (ht : ∀ c ∈ tail.head?, c = '\n') (hi : p.column = 1 → ∀ c ∈ line.head?, ¬ isIndent c)
    (hm : ¬ atMarker p (line ++ tail)) :
    scan p (line ++ tail) = ofRest p line ++ scan (p.after line) tail := by
  cases line with
  | nil => rfl
  | cons c line =>
    have hw : walkIndent p (c :: line ++ tail) = ⟨[], p, c :: line ++ tail⟩ :=
      walkIndent_of_not_isIndent hi
    have hnext := next?_text hp hn ht hm
    rw [scan_of_some hw hnext]
    rfl

private theorem scan_indent {p : Position} {gap rest : List Char} (hp : p.column = 1)
    (hg : ∀ c ∈ gap, isIndent c) (hr : ∀ c ∈ rest.head?, ¬ isIndent c) :
    scan p (gap ++ rest) = scan (p.after gap) rest := by
  have hw := walkIndent_run hp hg hr
  have hw' : walkIndent (p.after gap) rest = ⟨[], p.after gap, rest⟩ :=
    walkIndent_of_not_isIndent fun _ => hr
  cases hn : next? (p.after gap) rest with
  | none => rw [scan_of_none hw hn, scan_of_none hw' hn]
  | some found => rw [scan_of_some hw hn, scan_of_some hw' hn]

/-- From the start of a line the pass yields the tokens of the line. -/
theorem scan_line {p : Position} {line tail : List Char} (hp : p.column = 1) (hn : '\n' ∉ line)
    (ht : ∀ c ∈ tail.head?, c = '\n') :
    scan p (line ++ tail) = ofLine p line ++ scan (p.after line) tail := by
  rw [ofLine]
  cases hm : mentionAt? line with
  | some name =>
    obtain ⟨r, rfl, -, -⟩ := mention_split hm
    have hm' : mentionAt? ('@' :: (name ++ (r ++ tail))) = some name := by
      have := mentionAt?_append_of_lineEnd ('@' :: (name ++ r)) ht
      rwa [hm, List.cons_append, List.append_assoc] at this
    have hw : walkIndent p ('@' :: (name ++ (r ++ tail))) = ⟨[], p, '@' :: (name ++ (r ++ tail))⟩ :=
      walkIndent_of_not_isIndent fun _ => by simp [isIndent]
    have hcol := p.column_lt_after (fun h => hn (List.mem_append_left r h))
      (List.cons_ne_nil '@' name)
    have hne : (p.after ('@' :: name)).column ≠ 1 := by omega
    have hrest := scan_rest (Nat.zero_lt_of_lt hcol)
      (fun h => hn (List.mem_append_right ('@' :: name) h)) ht (fun h => absurd h hne)
      (not_atMarker_of_ne hne (r ++ tail))
    rw [List.cons_append, List.append_assoc,
      scan_of_some hw (next?_marker hp hm'), hrest]
    simp only [Position.after_append, Position.after_cons, List.cons_append, List.drop_succ_cons,
      List.drop_left]
  | none =>
    obtain ⟨gap, r, rfl, hgap, hdrop, hi, hr⟩ := exists_indent line
    have hstop : ∀ c ∈ (r ++ tail).head?, ¬ isIndent c := by
      cases r with
      | nil =>
        intro c hc
        obtain rfl := ht c hc
        exact not_isIndent_lineFeed
      | cons c r => exact hr
    have hgapn : '\n' ∉ gap := fun h => hn (List.mem_append_left r h)
    have hmark : ¬ atMarker (p.after gap) (r ++ tail) := by
      by_cases hnil : gap = []
      · rw [hnil, List.nil_append] at hm
        rw [atMarker, mentionAt?_append_of_lineEnd r ht, hm]
        simp
      · have := p.column_lt_after hgapn hnil
        exact not_atMarker_of_ne (by omega) _
    have hpos : 0 < (p.after gap).column := by
      rw [Position.after_line p hgapn]
      simp only
      omega
    rw [hgap, hdrop, List.append_assoc, scan_indent hp hi hstop,
      scan_rest hpos (fun h => hn (List.mem_append_right gap h)) ht (fun _ => hr) hmark,
      Position.after_append]

private theorem scan_nil (p : Position) : scan p [] = [finish p] := by
  have hi : walkIndent p [] = ⟨[], p, []⟩ := walkIndent_of_not_isIndent (by simp)
  exact scan_of_none hi rfl

theorem scan_lineFeed (p : Position) (rest : List Char) :
    scan p ('\n' :: rest) = lineFeed p :: scan (p.advance '\n') rest := by
  have hi : walkIndent p ('\n' :: rest) = ⟨[], p, '\n' :: rest⟩ :=
    walkIndent_of_not_isIndent fun _ => by simp [isIndent]
  exact scan_of_some hi rfl

/-- The pass yields the tokens of all lines. -/
theorem scan_eq {p : Position} (hp : p.column = 1) (cs : List Char) :
    scan p cs = ofTextAt p cs := by
  induction cs using line_induction generalizing p with
  | last line hn =>
    have hs : scan p (line ++ []) = _ := scan_line hp hn (by simp)
    rw [List.append_nil, scan_nil] at hs
    rw [hs, ofTextAt_line p hn]
  | cons line rest hn ih =>
    rw [scan_line hp hn (by simp), scan_lineFeed, ih rfl, ofTextAt_cons p rest hn]

/-- An indented sign begins no marker, and the blank before it is in no token. -/
example : scan .start " @A\n@B".toList =
    [⟨.text "@A", ⟨1, 2, 1⟩, ⟨1, 4, 3⟩⟩, lineFeed ⟨1, 4, 3⟩, ⟨.marker "B", ⟨2, 1, 4⟩, ⟨2, 3, 6⟩⟩,
      finish ⟨2, 3, 6⟩] := by
  rw [scan_eq rfl]
  decide

private theorem Lays.forward {source : List Char} {ts : List Token} (h : Lays [] [] ts source)
    {t : Token} (ht : t ∈ ts) : t.range.start.In source ∧ t.range.stop.In source ∧
      t.range.start.offset ≤ t.range.stop.offset := by
  obtain ⟨lead, span, trail, he, hp, -⟩ := h.exists_of_mem ht
  rw [List.append_nil] at he
  have hs := Range.spans_middle lead span trail
  rw [← he] at hs
  rw [hp]
  exact ⟨hs.start, hs.stop, hs.forward⟩

def endOffsets (ts : List Token) : List Nat :=
  ts.flatMap fun t => [t.range.start.offset, t.range.stop.offset]

private theorem Lays.endOffsets_sorted {source : List Char} {ts : List Token}
    (h : Lays [] [] ts source) : (endOffsets ts).Pairwise (· ≤ ·) := by
  refine List.pairwise_flatMap.mpr ⟨?_, ?_⟩
  · intro t ht
    exact List.pairwise_pair.mpr (h.forward ht).2.2
  · refine h.pairwise_isBefore.imp_of_mem ?_
    intro t u ht hu hb x hx y hy
    have hstart := (h.forward ht).2.2
    have hstop := (h.forward hu).2.2
    have hle := hb.offset_le
    simp only [List.mem_cons, List.not_mem_nil, or_false] at hx hy
    omega

/-- The pass with a running place and the line index agree: the pass yields the tokens, both ends of
each are what the index finds at their offsets, offsets never fall, and the end of input stands at
the end of the text. -/
theorem tokens_placed (source : String) :
    tokenize source = scan .start source.toList ∧
    (∀ t ∈ tokenize source, t.range.start.In source.toList ∧ t.range.stop.In source.toList) ∧
    (endOffsets (tokenize source)).Pairwise (· ≤ ·) ∧
    ∃ init last, tokenize source = init ++ [last] ∧ last.lexeme = .endOfInput ∧
      last.range = (LineIndex.ofText source.toList).range (byteLength source.toList)
        (byteLength source.toList) ∧
      last.range.start.offset = byteLength source.toList := by
  have hl := lays_tokenize source
  have hz := LineIndex.positionAt_byteLength source.toList []
  rw [List.append_nil] at hz
  refine ⟨(scan_eq rfl source.toList).symm, ?_, hl.endOffsets_sorted, _, _, tokenize_eq source, rfl,
    ?_, Position.offset_start_after _⟩
  · intro t ht
    exact ⟨(hl.forward ht).1, (hl.forward ht).2.1⟩
  · rw [LineIndex.range, hz]
    rfl

end Token

end ConceptMarkup
