import ConceptMarkup.Proofs.Mentions

/-! Tokens line by line, and what the tokens of a stretch of text leave uncovered. Tokens carry no
blanks of their own accord: only the indentation of a line is in no token, so the characters before
the first token of a stretch and after its last are blank. -/
namespace ConceptMarkup
open Text

/-- A text is a line, or a line, a line feed and a text. -/
theorem Text.line_induction {motive : List Char → Prop}
    (last : ∀ line, '\n' ∉ line → motive line)
    (cons : ∀ line rest, '\n' ∉ line → motive rest → motive (line ++ '\n' :: rest)) :
    ∀ cs, motive cs := by
  suffices h : ∀ cs line, '\n' ∉ line → motive (line ++ cs) from fun cs => h cs [] (by simp)
  intro cs
  induction cs with
  | nil =>
    intro line hl
    rw [List.append_nil]
    exact last line hl
  | cons c cs ih =>
    intro line hl
    by_cases hc : c = '\n'
    · subst hc
      exact cons line cs hl (ih [] (by simp))
    · have := ih (line ++ [c]) (by simp [hl, Ne.symm hc])
      rwa [List.append_assoc] at this

namespace Token

/-- The tokens of a text that begins at `p`. -/
def ofTextAt (p : Position) (cs : List Char) : List Token := ofLines p (cs.splitOn '\n')

def lineFeed (p : Position) : Token := ⟨.newline, p, p.advance '\n'⟩

def finish (p : Position) : Token := ⟨.endOfInput, p, p⟩

theorem ofTextAt_line (p : Position) {line : List Char} (h : '\n' ∉ line) :
    ofTextAt p line = ofLine p line ++ [finish (p.after line)] := by
  rw [ofTextAt, List.splitOn_eq_singleton h]
  rfl

theorem ofTextAt_cons (p : Position) {line : List Char} (rest : List Char) (h : '\n' ∉ line) :
    ofTextAt p (line ++ '\n' :: rest) =
      ofLine p line ++ lineFeed (p.after line) :: ofTextAt ((p.after line).advance '\n') rest := by
  rw [ofTextAt, List.splitOn_append_cons_self_of_not_mem h]
  obtain ⟨l, ls, hs⟩ := List.exists_cons_of_ne_nil (List.splitOn_ne_nil '\n' rest)
  rw [hs, ofLines, ofTextAt, hs]
  · rfl
  · exact List.cons_ne_nil l ls

theorem ofRest_isText (p : Position) (cs : List Char) :
    ∀ t ∈ ofRest p cs, t.isMarker = false ∧ t.isNewline = false ∧ t.isEndOfInput = false := by
  intro t ht
  cases cs with
  | nil => cases ht
  | cons c cs =>
    rw [List.mem_singleton.mp ht]
    exact ⟨rfl, rfl, rfl⟩

private theorem ofLine_not_isEndOfInput (p : Position) (line : List Char) :
    ∀ t ∈ ofLine p line, t.isEndOfInput = false := by
  intro t ht
  unfold ofLine at ht
  split at ht
  · rcases List.mem_cons.mp ht with rfl | ht
    · rfl
    · exact (ofRest_isText _ _ t ht).2.2
  · exact (ofRest_isText _ _ t ht).2.2

/-- The tokens of a text before the end of input. -/
def content (p : Position) (cs : List Char) : List Token :=
  (ofTextAt p cs).takeWhile fun t => !t.isEndOfInput

theorem content_line (p : Position) {line : List Char} (h : '\n' ∉ line) :
    content p line = ofLine p line := by
  rw [content, ofTextAt_line p h]
  apply takeWhile_append_stop
  · intro t ht
    simp [ofLine_not_isEndOfInput p line t ht]
  · intro t ht
    cases ht
    simp [finish, isEndOfInput]

theorem content_cons (p : Position) {line : List Char} (rest : List Char) (h : '\n' ∉ line) :
    content p (line ++ '\n' :: rest) =
      ofLine p line ++ lineFeed (p.after line) :: content ((p.after line).advance '\n') rest := by
  rw [content, ofTextAt_cons p rest h, List.takeWhile_append_of_pos]
  · rfl
  · intro t ht
    simp [ofLine_not_isEndOfInput p line t ht]

/-- The tokens of a text end with the end of input, at the end of the text. -/
theorem ofTextAt_eq (p : Position) (cs : List Char) :
    ofTextAt p cs = content p cs ++ [finish (p.after cs)] := by
  induction cs using line_induction generalizing p with
  | last line h => rw [ofTextAt_line p h, content_line p h]
  | cons line rest h ih =>
    rw [ofTextAt_cons p rest h, content_cons p rest h, ih, List.append_assoc, List.cons_append,
      Position.after_append, Position.after_cons]

/-- The tokens of a stretch that begins at `p` leave only blanks of it uncovered: all of it, or
what stands before the first token and after the last. -/
inductive Covers (p : Position) (cs : List Char) : List Token → Prop where
  | nothing : Blank cs → Covers p cs []
  | between {ts : List Token} {first last : Token} (lead mid trail : List Char) :
      cs = lead ++ mid ++ trail → Blank lead → Blank trail →
      ts.head? = some first → first.range.start = p.after lead →
      ts.getLast? = some last → last.range.stop = p.after (lead ++ mid) → Covers p cs ts

namespace Covers

theorem append {p : Position} {as bs : List Char} {ts us : List Token} (ha : Covers p as ts)
    (hb : Covers (p.after as) bs us) : Covers p (as ++ bs) (ts ++ us) := by
  cases ha with
  | nothing ha =>
    cases hb with
    | nothing hb => exact .nothing (blank_append.mpr ⟨ha, hb⟩)
    | between lead mid trail he hl ht hf hs hg hz =>
      refine .between (as ++ lead) mid trail ?_ (blank_append.mpr ⟨ha, hl⟩) ht hf ?_ hg ?_
      · rw [he]
        simp only [List.append_assoc]
      · rw [hs, Position.after_append]
      · rw [hz, List.append_assoc, Position.after_append p as]
  | between lead mid trail he hl ht hf hs hg hz =>
    cases hb with
    | nothing hb =>
      refine .between lead mid (trail ++ bs) ?_ hl (blank_append.mpr ⟨ht, hb⟩) ?_ hs ?_ hz
      · rw [he]
        simp only [List.append_assoc]
      · rw [List.append_nil, hf]
      · rw [List.append_nil, hg]
    | between lead' mid' trail' he' hl' ht' hf' hs' hg' hz' =>
      have hfst : (ts ++ us).head? = ts.head? := by rw [List.head?_append, hf, Option.some_or]
      have hlst : (ts ++ us).getLast? = us.getLast? := by
        rw [List.getLast?_append, hg', Option.some_or]
      refine .between lead (mid ++ trail ++ lead' ++ mid') trail' ?_ hl ht' (hfst.trans hf) hs
        (hlst.trans hg') ?_
      · rw [he, he']
        simp only [List.append_assoc]
      · rw [hz', he]
        simp only [Position.after_append]

theorem ofRest (p : Position) (cs : List Char) : Covers p cs (Token.ofRest p cs) := by
  cases cs with
  | nil => exact .nothing Blank.nil
  | cons c cs =>
    exact .between [] (c :: cs) [] (by simp) .nil .nil rfl rfl rfl rfl

theorem lineFeed (p : Position) : Covers p ['\n'] [Token.lineFeed p] :=
  .between [] ['\n'] [] rfl .nil .nil rfl rfl rfl rfl

private theorem isBlank_of_isIndent {c : Char} (h : isIndent c) : isBlank c := by
  simp only [isIndent, Bool.or_eq_true, decide_eq_true_eq] at h
  rcases h with (rfl | rfl) | rfl <;> decide

theorem ofLine (p : Position) {line : List Char} (h : mentionAt? line = none) :
    Covers p line (Token.ofLine p line) := by
  have hi : Covers p (line.takeWhile isIndent) [] := by
    apply nothing
    intro c hc
    exact isBlank_of_isIndent (List.mem_takeWhile_imp hc)
  have := hi.append (ofRest (p.after (line.takeWhile isIndent)) (line.dropWhile isIndent))
  rw [List.takeWhile_append_dropWhile, List.nil_append] at this
  rwa [Token.ofLine, h]

/-- A line feed directly before a stretch may stand uncovered, too. -/
theorem cons_lineFeed {p : Position} {cs : List Char} {ts : List Token}
    (h : Covers (p.advance '\n') cs ts) : Covers p ('\n' :: cs) ts := by
  have hb : Covers p ['\n'] [] := .nothing (by simp [Blank, isBlank])
  exact hb.append h

end Covers

end Token

end ConceptMarkup
