import ConceptMarkup.Proofs.TokenJoin

/-! The pass over a text by byte offset. All that the pass keeps of the text is an offset: what
comes next is cut out there for every character, and the value of a token is cut out between the
offsets of its ends. An offset inside a character would end the pass. -/
namespace ConceptMarkup
open Text

namespace Text

def from? (offset : Nat) (cs : List Char) : Option (List Char) :=
  (splitBytes? offset cs).map (·.2)

@[simp] theorem from?_byteLength (as bs : List Char) :
    from? (byteLength as) (as ++ bs) = some bs := by
  rw [from?, splitBytes?_byteLength, Option.map_some]

private theorem exists_append_of_from? {n : Nat} {cs rest : List Char}
    (h : from? n cs = some rest) : ∃ before, cs = before ++ rest ∧ byteLength before = n := by
  obtain ⟨parts, hp, -⟩ := Option.map_eq_some_iff.mp h
  obtain ⟨before, after, rfl, rfl⟩ := boundaryAt_iff_splitBytes?.mpr (by rw [hp]; rfl)
  rw [from?_byteLength] at h
  cases h
  exact ⟨before, rfl, rfl⟩

private theorem lt_byteLength_of_from? {n : Nat} {cs rest : List Char} {c : Char}
    (h : from? n cs = some (c :: rest)) : n < byteLength cs := by
  obtain ⟨before, rfl, rfl⟩ := exists_append_of_from? h
  have := c.utf8Size_pos
  rw [byteLength_append, byteLength_cons]
  omega

end Text

namespace Token

/-- Walks on from a place for as long as `go` holds of it and of the text cut there. -/
def walkAt? (go : Position → List Char → Bool) (source : List Char) (p : Position) :
    Option Position :=
  match _h : from? p.offset source with
  | none => none
  | some [] => some p
  | some (c :: cs) => if go p (c :: cs) then walkAt? go source (p.advance c) else some p
termination_by byteLength source - p.offset
decreasing_by
  have := c.utf8Size_pos
  have := lt_byteLength_of_from? _h
  rw [Position.offset_advance]
  omega

def walkIndentAt? (source : List Char) (p : Position) : Option Position :=
  if p.column = 1 then walkAt? (fun _ cs => cs.head?.any isIndent) source p else some p

def spanAt? (go : Position → List Char → Bool) (source : List Char) (p : Position) :
    Option (List Char × Position) := do
  let stop ← walkAt? go source p
  let passed ← slice? p.offset stop.offset source
  some (passed, stop)

def nextAt? (source : List Char) (p : Position) : Option (Option Token) := do
  match ← from? p.offset source with
  | [] => some none
  | c :: cs =>
    if c = '\n' then some (some (lineFeed p))
    else if atMarker p (c :: cs) then
      let (name, stop) ← spanAt? (fun _ cs => cs.head?.any isNameChar) source (p.advance c)
      some (some ⟨.marker (String.ofList name), p, stop⟩)
    else
      let (content, stop) ←
        spanAt? (fun p cs => cs.head? ≠ some '\n' && !atMarker p cs) source p
      some (some ⟨.text (String.ofList content), p, stop⟩)

private theorem walkAt?_of_cons {go : Position → List Char → Bool} {source cs : List Char}
    {p : Position}
    {c : Char} (h : from? p.offset source = some (c :: cs)) : walkAt? go source p =
      if go p (c :: cs) then walkAt? go source (p.advance c) else some p := by
  rw [walkAt?]
  split
  · next h' => rw [h] at h'; cases h'
  · next h' => rw [h] at h'; cases h'
  · next h' =>
    rw [h] at h'
    cases h'
    rfl

private theorem offset_le_of_walkAt? {go : Position → List Char → Bool} {source : List Char}
    {p q : Position} (h : walkAt? go source p = some q) : p.offset ≤ q.offset := by
  fun_induction walkAt? go source p with
  | case1 => cases h
  | case2 =>
    cases h
    exact Nat.le_refl _
  | case3 p c cs _ _ ih =>
    have := ih h
    rw [Position.offset_advance] at this
    exact (Nat.le_add_right _ _).trans this
  | case4 =>
    cases h
    exact Nat.le_refl _

private theorem offset_le_of_walkIndentAt? {source : List Char} {p q : Position}
    (h : walkIndentAt? source p = some q) : p.offset ≤ q.offset := by
  rw [walkIndentAt?] at h
  split at h
  · exact offset_le_of_walkAt? h
  · cases h
    exact Nat.le_refl _

private theorem walkAt?_of_spanAt? {go : Position → List Char → Bool} {source passed : List Char}
    {p stop : Position} (h : spanAt? go source p = some (passed, stop)) :
    walkAt? go source p = some stop := by
  obtain ⟨_, hw, h⟩ := Option.bind_eq_some_iff.mp h
  obtain ⟨_, _, h⟩ := Option.bind_eq_some_iff.mp h
  cases h
  exact hw

private theorem offset_lt_of_nextAt? {source : List Char} {p : Position} {t : Token}
    (h : nextAt? source p = some (some t)) :
    p.offset < t.range.stop.offset ∧ p.offset < byteLength source := by
  obtain ⟨rest, hr, h⟩ := Option.bind_eq_some_iff.mp h
  cases rest with
  | nil => cases h
  | cons c cs =>
    refine ⟨?_, lt_byteLength_of_from? hr⟩
    have hlt : p.offset < (p.advance c).offset := by
      rw [Position.offset_advance]
      exact Nat.lt_add_of_pos_right c.utf8Size_pos
    dsimp only at h
    split at h
    · next hc =>
      cases h
      rw [hc] at hlt
      exact hlt
    · next hc =>
      split at h
      · obtain ⟨⟨name, stop⟩, hs, h⟩ := Option.bind_eq_some_iff.mp h
        cases h
        exact hlt.trans_le (offset_le_of_walkAt? (walkAt?_of_spanAt? hs))
      · next hm =>
        obtain ⟨⟨content, stop⟩, hs, h⟩ := Option.bind_eq_some_iff.mp h
        cases h
        have hw := walkAt?_of_spanAt? hs
        rw [walkAt?_of_cons hr, if_pos (by simp [hc, hm])] at hw
        exact hlt.trans_le (offset_le_of_walkAt? hw)

def scanAt? (source : List Char) (p : Position) : Option (List Token) :=
  match _hi : walkIndentAt? source p with
  | none => none
  | some q =>
    match _ht : nextAt? source q with
    | none => none
    | some none => some [finish q]
    | some (some t) => (scanAt? source t.range.stop).map (t :: ·)
termination_by byteLength source - p.offset
decreasing_by
  have hq := offset_le_of_walkIndentAt? _hi
  obtain ⟨hs, hz⟩ := offset_lt_of_nextAt? _ht
  omega

private theorem scanAt?_of_nextAt? {source : List Char} {p q : Position} {t : Option Token}
    (hi : walkIndentAt? source p = some q) (ht : nextAt? source q = some t) : scanAt? source p =
      t.elim (some [finish q]) fun t => (scanAt? source t.range.stop).map (t :: ·) := by
  rw [scanAt?]
  split
  · next h => rw [hi] at h; cases h
  · next h =>
    rw [hi] at h
    cases h
    split
    · next h => rw [ht] at h; cases h
    · next h => rw [ht] at h; cases h; rfl
    · next h => rw [ht] at h; cases h; rfl

variable (go : Position → List Char → Bool) (before cs : List Char)

private theorem walkAt?_eq : walkAt? go (before ++ cs) (Position.start.after before) =
    some (walk go (Position.start.after before) cs).place := by
  induction cs generalizing before with
  | nil =>
    rw [walkAt?, Position.offset_start_after, from?_byteLength]
    rfl
  | cons c cs ih =>
    have hi := ih (before ++ [c])
    have hf : from? (Position.start.after before).offset (before ++ c :: cs) = some (c :: cs) := by
      rw [Position.offset_start_after, from?_byteLength]
    rw [List.append_assoc, Position.after_append] at hi
    rw [walkAt?_of_cons hf, walk]
    split
    · exact hi
    · rfl

private theorem spanAt?_eq : spanAt? go (before ++ cs) (Position.start.after before) =
    some ((walk go (Position.start.after before) cs).passed,
      (walk go (Position.start.after before) cs).place) := by
  have hw := walkAt?_eq go before cs
  obtain ⟨he, hp⟩ := walk_passed go (Position.start.after before) cs
  generalize walk go (Position.start.after before) cs = w at he hp hw ⊢
  have hs := slice?_middle before w.passed w.rest
  rw [List.append_assoc, ← he, ← Position.offset_start_after (before ++ w.passed),
    Position.after_append, ← hp] at hs
  simp only [spanAt?, hw, Position.offset_start_after, hs, Option.bind_eq_bind, Option.bind_some]

private theorem walkIndentAt?_eq : walkIndentAt? (before ++ cs) (Position.start.after before) =
    some (walkIndent (Position.start.after before) cs).place := by
  rw [walkIndentAt?, walkIndent]
  split
  · exact walkAt?_eq _ before cs
  · rfl

private theorem nextAt?_eq : nextAt? (before ++ cs) (Position.start.after before) =
    some ((next? (Position.start.after before) cs).map (·.1)) := by
  rw [nextAt?, Position.offset_start_after, from?_byteLength]
  cases cs with
  | nil => rfl
  | cons c cs =>
    have hname := spanAt?_eq (fun _ cs => cs.head?.any isNameChar) (before ++ [c]) cs
    rw [List.append_assoc, Position.after_append] at hname
    have htext := spanAt?_eq (fun p cs => cs.head? ≠ some '\n' && !atMarker p cs) before (c :: cs)
    rw [next?]
    simp only [Option.bind_eq_bind, Option.bind_some]
    split
    · rfl
    · split
      · simp only [List.cons_append, List.nil_append, Position.after_cons, Position.after_nil]
          at hname
        rw [hname]
        rfl
      · rw [htext]
        rfl

variable {before cs} in
private theorem exists_span_of_next? {p : Position} {rest : List Char} {t : Token}
    (h : next? p cs = some (t, rest)) :
    ∃ span, cs = span ++ rest ∧ t.range.stop = p.after span := by
  cases cs with
  | nil => cases h
  | cons c cs =>
    rw [next?] at h
    split at h
    · next hc =>
      cases h
      exact ⟨[c], rfl, by rw [hc]; rfl⟩
    · split at h
      · cases h
        obtain ⟨he, hp⟩ := walk_passed (fun _ cs => cs.head?.any isNameChar) (p.advance c) cs
        exact ⟨c :: _, congrArg (c :: ·) he, hp⟩
      · cases h
        exact ⟨_, walk_passed _ p (c :: cs)⟩

private theorem exists_gap : ∃ gap, cs = gap ++ (walkIndent (Position.start.after before) cs).rest ∧
    (walkIndent (Position.start.after before) cs).place = Position.start.after (before ++ gap) ∧
    nextAt? (before ++ cs) (walkIndent (Position.start.after before) cs).place =
      some ((next? (walkIndent (Position.start.after before) cs).place
        (walkIndent (Position.start.after before) cs).rest).map (·.1)) := by
  have hgap : ∃ gap, cs = gap ++ (walkIndent (Position.start.after before) cs).rest ∧
      (walkIndent (Position.start.after before) cs).place =
        (Position.start.after before).after gap := by
    rw [walkIndent]
    split
    · exact ⟨_, walk_passed _ _ cs⟩
    · exact ⟨[], rfl, rfl⟩
  obtain ⟨gap, hg, hp⟩ := hgap
  rw [← Position.after_append] at hp
  have hn := nextAt?_eq (before ++ gap) (walkIndent (Position.start.after before) cs).rest
  rw [List.append_assoc, ← hg, ← hp] at hn
  exact ⟨gap, hg, hp, hn⟩

private theorem scanAt?_eq : scanAt? (before ++ cs) (Position.start.after before) =
    some (scan (Position.start.after before) cs) := by
  generalize hp : Position.start.after before = p
  fun_induction scan p cs generalizing before with
  | case1 p cs w hn =>
    subst hp
    obtain ⟨gap, -, -, ht⟩ := exists_gap before cs
    rw [hn] at ht
    rw [scanAt?_of_nextAt? (walkIndentAt?_eq before cs) ht]
    rfl
  | case2 p cs w t rest hn ih =>
    subst hp
    obtain ⟨gap, hg, hq, ht⟩ := exists_gap before cs
    obtain ⟨span, hs, hz⟩ := exists_span_of_next? hn
    have hrest := ih (before ++ gap ++ span) (by rw [Position.after_append, ← hq, hz])
    rw [List.append_assoc, List.append_assoc, ← hs, ← hg] at hrest
    rw [hn] at ht
    rw [scanAt?_of_nextAt? (walkIndentAt?_eq before cs) ht, Option.map_some, Option.elim_some,
      hrest, Option.map_some]

end Token

/-- The tokens of a source text, by a pass that keeps an offset into it. -/
def tokenizeAt? (source : String) : Option (List Token) := Token.scanAt? source.toList .start

theorem tokenizeAt?_eq (source : String) : tokenizeAt? source = some (tokenize source) := by
  rw [Token.tokenize_eq_scan]
  exact Token.scanAt?_eq [] source.toList

end ConceptMarkup
