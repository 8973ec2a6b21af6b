import ConceptMarkup.Proofs.LineTokens

/-! Documents read off the raw text. A text is cut before every marker, with no token in between,
and each section becomes a concept by its name and what follows it. Parsing through tokens gives
these concepts. -/
namespace ConceptMarkup
open Text

namespace Text

/-- The text before the first marker, and the sections: each begins with a marker and runs up to
the next one. `fresh` says whether a line begins here. -/
def sections (fresh : Bool) : List Char → List Char × List (List Char)
  | [] => ([], [])
  | c :: cs =>
    let tail := sections (c = '\n') cs
    if fresh && (mentionAt? (c :: cs)).isSome then ([], (c :: tail.1) :: tail.2)
    else (c :: tail.1, tail.2)

def preamble (cs : List Char) : List Char := (sections true cs).1

def marked (cs : List Char) : List (List Char) := (sections true cs).2

theorem sections_join (fresh : Bool) (cs : List Char) :
    (sections fresh cs).1 ++ (sections fresh cs).2.flatten = cs := by
  induction cs generalizing fresh with
  | nil => rfl
  | cons c cs ih =>
    have := ih (c = '\n')
    rw [sections]
    split
    · simpa using this
    · simpa using this

/-- Nothing of a text is lost: it is its preamble and its sections. -/
theorem preamble_append_marked (cs : List Char) : preamble cs ++ (marked cs).flatten = cs :=
  sections_join true cs

/-- A sign after an indent does not begin a section. -/
example : (preamble "x\n@A b\n @C\n@D".toList, marked "x\n@A b\n @C\n@D".toList) =
    ("x\n".toList, ["@A b\n @C\n".toList, "@D".toList]) := by
  decide

private theorem sections_line {line : List Char} (h : '\n' ∉ line) :
    sections false line = (line, []) := by
  induction line with
  | nil => rfl
  | cons c line ih =>
    rw [List.mem_cons, not_or] at h
    simp [sections, Ne.symm h.1, ih h.2]

private theorem sections_line_append {line : List Char} (rest : List Char) (h : '\n' ∉ line) :
    sections false (line ++ '\n' :: rest) = (line ++ '\n' :: preamble rest, marked rest) := by
  induction line with
  | nil => simp [sections, preamble, marked]
  | cons c line ih =>
    rw [List.mem_cons, not_or] at h
    simp [sections, Ne.symm h.1, ih h.2]

theorem mentionAt?_lineFeed (line rest : List Char) :
    mentionAt? (line ++ '\n' :: rest) = mentionAt? line := by
  cases line with
  | nil => rfl
  | cons c line =>
    apply mentionAt?_append (List.cons_ne_nil c line)
    intro b hb
    cases hb
    decide

private theorem sections_cons_of_none {line : List Char} (rest : List Char) (h : '\n' ∉ line)
    (hm : mentionAt? line = none) :
    sections true (line ++ '\n' :: rest) = (line ++ '\n' :: preamble rest, marked rest) := by
  rw [← mentionAt?_lineFeed line rest] at hm
  cases line with
  | nil => simp [sections, preamble, marked, mentionAt?]
  | cons c line =>
    rw [List.mem_cons, not_or] at h
    rw [List.cons_append] at hm
    simp [sections, hm, Ne.symm h.1, sections_line_append rest h.2]

private theorem sections_cons_of_some {line name : List Char} (rest : List Char) (h : '\n' ∉ line)
    (hm : mentionAt? line = some name) :
    sections true (line ++ '\n' :: rest) =
      ([], (line ++ '\n' :: preamble rest) :: marked rest) := by
  rw [← mentionAt?_lineFeed line rest] at hm
  cases line with
  | nil => cases hm
  | cons c line =>
    rw [List.mem_cons, not_or] at h
    rw [List.cons_append] at hm
    simp [sections, hm, Ne.symm h.1, sections_line_append rest h.2]

private theorem sections_line_of_none {line : List Char} (h : '\n' ∉ line)
    (hm : mentionAt? line = none) : sections true line = (line, []) := by
  cases line with
  | nil => rfl
  | cons c line =>
    rw [List.mem_cons, not_or] at h
    simp [sections, hm, Ne.symm h.1, sections_line h.2]

theorem sections_line_of_some {line name : List Char} (h : '\n' ∉ line)
    (hm : mentionAt? line = some name) : sections true line = ([], [line]) := by
  cases line with
  | nil => cases hm
  | cons c line =>
    rw [List.mem_cons, not_or] at h
    simp [sections, hm, Ne.symm h.1, sections_line h.2]

end Text

namespace Prose

theorem ofBody?_of_blank (p : Position) {cs : List Char} (h : Blank cs) : ofBody? p cs = none := by
  rw [ofBody?, trim_eq_nil_iff.mpr h]
  rfl

/-- The block of a body that is not blank: the text between its blanks, at its place. -/
theorem ofBody?_of_trimmed (p : Position) {cs lead text trail : List Char}
    (h : Trimmed cs lead text trail) (hn : text ≠ []) :
    ofBody? p cs = some ⟨String.ofList text, Reference.allIn (p.after lead) text, p.after lead,
      (p.after lead).after text⟩ := by
  obtain ⟨hl, ht⟩ := h.eq_of_ne_nil hn
  have hne : (trim cs).isEmpty = false := by
    rw [← ht]
    cases text with
    | nil => exact absurd rfl hn
    | cons c text => rfl
  simp only [ofBody?, hne, Bool.false_eq_true, ↓reduceIte]
  rw [← hl, ← ht]

/-- Blanks around a body do not change its block. -/
theorem ofBody?_append (p : Position) (lead mid trail : List Char) (hl : Blank lead)
    (ht : Blank trail) : ofBody? p (lead ++ mid ++ trail) = ofBody? (p.after lead) mid := by
  by_cases hm : Blank mid
  · rw [ofBody?_of_blank _ hm, ofBody?_of_blank]
    exact blank_append.mpr ⟨blank_append.mpr ⟨hl, hm⟩, ht⟩
  · obtain ⟨lead', text, trail', h, hn⟩ := exists_trimmed_of_not_blank hm
    rw [ofBody?_of_trimmed _ (h.append hl ht) hn, ofBody?_of_trimmed _ h hn, Position.after_append]

end Prose

namespace Concept

/-- The concept of a section that begins at `p` with a marker for `name`, with `body` after it. -/
def ofBody (p : Position) (name body : List Char) : Concept :=
  let q := p.after ('@' :: name)
  let block := Prose.ofBody? q body
  { name := String.ofList name
    nameRange := ⟨p, q⟩
    prose := block.toList
    range := ⟨p, block.elim q (·.range.stop)⟩ }

def ofText (p : Position) (cs : List Char) : Concept :=
  let name := (mentionAt? cs).getD []
  ofBody p name (cs.drop (name.length + 1))

theorem ofText_eq (p : Position) {name body : List Char}
    (h : mentionAt? ('@' :: (name ++ body)) = some name) :
    ofText p ('@' :: (name ++ body)) = ofBody p name body := by
  simp [ofText, h]

def ofTexts (p : Position) : List (List Char) → List Concept
  | [] => []
  | cs :: rest => ofText p cs :: ofTexts (p.after cs) rest

theorem length_ofTexts (p : Position) (css : List (List Char)) :
    (ofTexts p css).length = css.length := by
  induction css generalizing p with
  | nil => rfl
  | cons cs css ih => simp [ofTexts, ih]

/-- Each of the concepts is that of a section, read where the sections before it end. -/
theorem exists_text_of_mem_ofTexts {p : Position} {css : List (List Char)} {c : Concept}
    (h : c ∈ ofTexts p css) : ∃ before cs after, css = before ++ cs :: after ∧
      c = ofText (p.after before.flatten) cs := by
  induction css generalizing p with
  | nil => cases h
  | cons cs css ih =>
    rcases List.mem_cons.mp h with rfl | h
    · exact ⟨[], cs, css, rfl, rfl⟩
    · obtain ⟨before, cs', after, rfl, rfl⟩ := ih h
      refine ⟨cs :: before, cs', after, rfl, ?_⟩
      rw [List.flatten_cons, Position.after_append]

theorem exists_ofBody_of_mem_ofTexts {p : Position} {css : List (List Char)} {c : Concept}
    (h : c ∈ ofTexts p css) : ∃ q name body, c = ofBody q name body := by
  obtain ⟨_, _, _, -, rfl⟩ := exists_text_of_mem_ofTexts h
  exact ⟨_, _, _, rfl⟩

end Concept

namespace Token

/-- Sections of a text that begin at `p` and the tokens of each: a marker, and tokens that cover
what follows it but for blanks. -/
inductive Reads : Position → List (List Char) → List (Token × List Token) → Prop where
  | nil (p : Position) : Reads p [] []
  | cons {p : Position} {name body : List Char} {ts : List Token} {rest : List (List Char)}
      {parts : List (Token × List Token)} :
      mentionAt? ('@' :: (name ++ body)) = some name →
      Covers (p.after ('@' :: name)) body (Token.body ts) →
      Reads (p.after ('@' :: (name ++ body))) rest parts →
      Reads p (('@' :: (name ++ body)) :: rest)
        ((⟨.marker (String.ofList name), p, p.after ('@' :: name)⟩, ts) :: parts)

private theorem sections_append {ts : List Token} (us : List Token)
    (h : ∀ t ∈ ts, t.isMarker = false) :
    sections (ts ++ us) = (ts ++ (sections us).1, (sections us).2) := by
  induction ts with
  | nil => rfl
  | cons t ts ih =>
    have ht := h t List.mem_cons_self
    rw [List.cons_append, sections, ih fun t hm => h t (List.mem_cons_of_mem _ hm)]
    simp [ht]

theorem sections_marker {t : Token} (ts : List Token) (h : t.isMarker) :
    sections (t :: ts) = ([], (t, (sections ts).1) :: (sections ts).2) := by
  simp [sections, h]

private theorem sections_ofRest (p : Position) (cs : List Char) (us : List Token) :
    sections (ofRest p cs ++ us) = (ofRest p cs ++ (sections us).1, (sections us).2) :=
  sections_append us fun t ht => (ofRest_isText p cs t ht).1

private theorem sections_lineFeed (p : Position) (ts : List Token) :
    sections (lineFeed p :: ts) = (lineFeed p :: (sections ts).1, (sections ts).2) :=
  have h : ∀ t ∈ [lineFeed p], t.isMarker = false := by simp [lineFeed, isMarker]
  sections_append ts h

private theorem ofLine_of_none (p : Position) {line : List Char} (h : mentionAt? line = none) :
    ∀ t ∈ ofLine p line, t.isMarker = false := by
  intro t ht
  rw [ofLine, h] at ht
  exact (ofRest_isText _ _ t ht).1

private theorem ofLine_of_some (p : Position) {name r : List Char}
    (h : mentionAt? ('@' :: (name ++ r)) = some name) :
    ofLine p ('@' :: (name ++ r)) =
      ⟨.marker (String.ofList name), p, p.after ('@' :: name)⟩ ::
        ofRest (p.after ('@' :: name)) r := by
  simp [ofLine, h]

private theorem sections_ofLine_of_some (p e : Position) {name r : List Char} (us : List Token)
    (h : mentionAt? ('@' :: (name ++ r)) = some name) :
    sections (ofLine p ('@' :: (name ++ r)) ++ lineFeed e :: us) =
      ([], (⟨.marker (String.ofList name), p, p.after ('@' :: name)⟩,
        ofRest (p.after ('@' :: name)) r ++ lineFeed e :: (sections us).1) :: (sections us).2) := by
  rw [ofLine_of_some p h, List.cons_append, sections_marker _ rfl, sections_ofRest,
    sections_lineFeed]

private theorem body_covers (p : Position) (cs : List Char) {h : List Char} {ts : List Token}
    (hc : Covers ((p.after cs).advance '\n') h ts) :
    Covers p (cs ++ '\n' :: h) (Token.body (ofRest p cs ++ lineFeed (p.after cs) :: ts)) := by
  cases cs with
  | nil => exact Covers.cons_lineFeed hc
  | cons c cs =>
    have hl := Covers.lineFeed (p.after (c :: cs))
    have hb := (Covers.ofRest p (c :: cs)).append (hl.append hc)
    exact hb

private theorem reads_line (p : Position) {name r : List Char}
    (hm : mentionAt? ('@' :: (name ++ r)) = some name) :
    Reads p ['@' :: (name ++ r)] [(⟨.marker (String.ofList name), p, p.after ('@' :: name)⟩,
      ofRest (p.after ('@' :: name)) r)] := by
  have hb : Token.body (ofRest (p.after ('@' :: name)) r) = ofRest (p.after ('@' :: name)) r := by
    cases r <;> rfl
  refine .cons hm ?_ (.nil _)
  rw [hb]
  exact Covers.ofRest _ r

private theorem reads_cons_line (p : Position) {name r pre : List Char} {ts : List Token}
    {secs : List (List Char)} {parts : List (Token × List Token)}
    (hm : mentionAt? ('@' :: (name ++ r)) = some name)
    (hc : Covers ((p.after ('@' :: (name ++ r))).advance '\n') pre ts)
    (hr : Reads (((p.after ('@' :: (name ++ r))).advance '\n').after pre) secs parts) :
    Reads p (('@' :: (name ++ r) ++ '\n' :: pre) :: secs)
      ((⟨.marker (String.ofList name), p, p.after ('@' :: name)⟩,
        ofRest (p.after ('@' :: name)) r ++ lineFeed (p.after ('@' :: (name ++ r))) :: ts) ::
          parts) := by
  have hq : p.after ('@' :: (name ++ r)) = (p.after ('@' :: name)).after r := by
    rw [← Position.after_append, List.cons_append]
  rw [hq] at hc hr ⊢
  rw [← mentionAt?_lineFeed _ pre, List.cons_append, List.append_assoc] at hm
  rw [List.cons_append, List.append_assoc]
  refine .cons hm (body_covers _ r hc) ?_
  rw [← List.append_assoc, ← List.cons_append, Position.after_append, hq, Position.after_cons]
  exact hr

/-- The tokens of a text, cut at markers, read the sections of the text. -/
theorem content_reads (p : Position) (cs : List Char) :
    Covers p (preamble cs) (sections (content p cs)).1 ∧
      Reads (p.after (preamble cs)) (marked cs) (sections (content p cs)).2 := by
  induction cs using line_induction generalizing p with
  | last line h =>
    rw [content_line p h, preamble, marked]
    cases hm : mentionAt? line with
    | none =>
      have hs := sections_append [] (ofLine_of_none p hm)
      rw [List.append_nil] at hs
      rw [sections_line_of_none h hm, hs, sections, List.append_nil]
      exact ⟨Covers.ofLine p hm, .nil _⟩
    | some name =>
      obtain ⟨r, rfl, -, -⟩ := mention_split hm
      have hs := sections_ofRest (p.after ('@' :: name)) r []
      rw [List.append_nil] at hs
      rw [sections_line_of_some h hm, ofLine_of_some p hm, sections_marker _ rfl, hs, sections,
        List.append_nil]
      exact ⟨.nothing .nil, reads_line p hm⟩
  | cons line rest h ih =>
    obtain ⟨hc, hr⟩ := ih ((p.after line).advance '\n')
    rw [content_cons p rest h, preamble, marked]
    cases hm : mentionAt? line with
    | none =>
      rw [sections_cons_of_none rest h hm, sections_append _ (ofLine_of_none p hm),
        sections_lineFeed]
      constructor
      · exact (Covers.ofLine p hm).append ((Covers.lineFeed (p.after line)).append hc)
      · rw [Position.after_append, Position.after_cons]
        exact hr
    | some name =>
      obtain ⟨r, rfl, -, -⟩ := mention_split hm
      rw [sections_cons_of_some rest h hm, sections_ofLine_of_some p _ _ hm]
      exact ⟨.nothing .nil, reads_cons_line p hm hc hr⟩

end Token

namespace Document
open Token

private theorem block_of_covers {before body : List Char} (after : List Char) {ts : List Token}
    (h : Covers (Position.start.after before) body ts) :
    (do
      let first ← ts.head?
      Prose.ofBody? first.range.start (← Token.source? (before ++ body ++ after) ts)) =
      Prose.ofBody? (Position.start.after before) body := by
  cases h with
  | nothing hb => exact (Prose.ofBody?_of_blank _ hb).symm
  | between lead mid trail he hl ht hf hs hg hz =>
    have hsrc : Token.source? (before ++ body ++ after) ts = some mid := by
      have := slice?_middle (before ++ lead) mid (trail ++ after)
      simp only [List.append_assoc] at this
      simp only [Token.source?, hf, hg, hs, hz, he, Option.bind_eq_bind, Option.bind_some,
        ← Position.after_append, Position.offset_after, Position.start, Nat.zero_add,
        List.append_assoc]
      exact this
    rw [hsrc, hf, he, Prose.ofBody?_append _ lead mid trail hl ht, ← hs]
    rfl

private theorem ofSection_eq {before name body after : List Char} {ts : List Token}
    (h : Covers ((Position.start.after before).after ('@' :: name)) body (Token.body ts)) :
    Concept.ofSection (before ++ '@' :: (name ++ body) ++ after)
        ⟨.marker (String.ofList name), Position.start.after before,
          (Position.start.after before).after ('@' :: name)⟩ ts =
      Concept.ofBody (Position.start.after before) name body := by
  rw [← Position.after_append] at h
  have hb := block_of_covers after h
  rw [Position.after_append] at hb
  have he : before ++ '@' :: (name ++ body) ++ after = before ++ '@' :: name ++ body ++ after := by
    simp only [List.append_assoc, List.cons_append]
  rw [he, Concept.ofSection, hb]
  rfl

private theorem ofSection_of_reads (before after : List Char) {css : List (List Char)}
    {parts : List (Token × List Token)} (h : Reads (Position.start.after before) css parts) :
    (parts.map fun (m, ts) => Concept.ofSection (before ++ css.flatten ++ after) m ts) =
      Concept.ofTexts (Position.start.after before) css := by
  generalize hp : Position.start.after before = p at h
  induction h generalizing before with
  | nil => rfl
  | @cons p name body ts rest parts hm hc _ ih =>
    subst hp
    have he : before ++ (('@' :: (name ++ body)) :: rest).flatten ++ after =
        before ++ '@' :: (name ++ body) ++ (rest.flatten ++ after) := by
      simp only [List.flatten_cons, List.append_assoc]
    have ht := ih (before ++ '@' :: (name ++ body)) (Position.after_append _ _ _)
    rw [List.append_assoc (before ++ '@' :: (name ++ body))] at ht
    rw [List.map_cons, Concept.ofTexts, Concept.ofText_eq _ hm, he]
    exact congrArg₂ List.cons (ofSection_eq hc) ht

/-- The concepts of a text are those of its sections. -/
theorem parse_concepts (source : String) :
    (parse source).concepts =
      Concept.ofTexts (Position.start.after (preamble source.toList)) (marked source.toList) := by
  have h := (content_reads .start source.toList).2
  have hs := ofSection_of_reads (preamble source.toList) [] h
  rw [List.append_nil, preamble_append_marked] at hs
  exact hs

/-- A document spans its text. -/
theorem parse_range (source : String) :
    (parse source).range = ⟨.start, Position.start.after source.toList⟩ := by
  have h : tokenize source = content .start source.toList ++
      [finish (Position.start.after source.toList)] := ofTextAt_eq .start source.toList
  simp [parse, ofTokens, h, finish]

end Document

end ConceptMarkup
