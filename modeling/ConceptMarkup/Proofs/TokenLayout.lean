import ConceptMarkup.Proofs.PlaceOrder
import ConceptMarkup.Proofs.Sections

/-! The layout of the tokens over a text. Each token has a span, and between spans only the
indentation of a line is left out. What a token is, is said by its span and by what stands on either
side of it; all that is known about the stream of tokens is drawn from this layout. -/
namespace ConceptMarkup
open Text

/-- How a lexeme is spelt: its span, with the text before it and the text after it. -/
inductive Lexeme.Spells (before : List Char) : Lexeme → List Char → List Char → Prop where
  /-- A marker begins a line, and its name is as long as it can be. -/
  | marker {name after : List Char} : AtLineStart before → (∃ c ∈ name.head?, c.isUpper) →
      (∀ c ∈ name, isNameChar c) → (∀ c ∈ after.head?, ¬ isNameChar c) →
      Spells before (.marker (String.ofList name)) ('@' :: name) after
  /-- A text runs to the end of its line, and is no marker. -/
  | text {content after : List Char} : content ≠ [] → '\n' ∉ content →
      (∀ c ∈ after.head?, c = '\n') →
      (AtLineStart before → mentionAt? (content ++ after) = none) →
      Spells before (.text (String.ofList content)) content after
  | newline {after : List Char} : Spells before .newline ['\n'] after
  | endOfInput : Spells before .endOfInput [] []

namespace Token

def isText (t : Token) : Bool := t.lexeme matches .text _

/-- The token of a lexeme whose span follows `before`. -/
def placed (before : List Char) (lexeme : Lexeme) (span : List Char) : Token :=
  ⟨lexeme, Position.start.after before, Position.start.after (before ++ span)⟩

/-- Tokens laid out over a text, which stands between `before` and `after`: the text is the spans of
the tokens, each with a gap before it that is the indentation of a line or empty. -/
inductive Lays (after : List Char) : List Char → List Token → List Char → Prop where
  | nil {before : List Char} : Lays after before [] []
  | cons {before gap span rest : List Char} {lexeme : Lexeme} {ts : List Token} :
      (∀ c ∈ gap, isIndent c) → (gap ≠ [] → AtLineStart before) →
      lexeme.Spells (before ++ gap) span (rest ++ after) →
      Lays after (before ++ gap ++ span) ts rest →
      Lays after before (placed (before ++ gap) lexeme span :: ts) (gap ++ span ++ rest)

end Token

namespace Text

private theorem atLineStart_concat_lineFeed (cs : List Char) : AtLineStart (cs ++ ['\n']) :=
  .inr List.getLast?_concat

private theorem not_atLineStart_append {before part : List Char} (hp : part ≠ [])
    (hn : '\n' ∉ part) : ¬ AtLineStart (before ++ part) := by
  rintro (h | h)
  · exact hp (List.append_eq_nil_iff.mp h).2
  · rw [List.getLast?_append_of_ne_nil _ hp] at h
    exact hn (List.mem_of_getLast? h)

private theorem count_lt_of_atLineStart {before part : List Char} (h : AtLineStart (before ++ part))
    (hp : part ≠ []) : before.count '\n' < (before ++ part).count '\n' := by
  have hm : '\n' ∈ part := by
    by_contra hn
    exact not_atLineStart_append hp hn h
  have := List.count_pos_iff.mpr hm
  rw [List.count_append]
  omega

private theorem head_of_mentionAt?_name {cs name : List Char} (h : mentionAt? cs = some name) :
    ∃ c ∈ name.head?, c.isUpper := by
  obtain ⟨after, rfl, ⟨c, hc, hu⟩, rfl⟩ := mentionAt?_eq_some_iff.mp h
  cases after with
  | nil => cases hc
  | cons d ds =>
    cases hc
    rw [List.takeWhile_cons_of_pos (isNameChar_of_isUpper hu)]
    exact ⟨c, rfl, hu⟩

/-- What ends a line has no part in the mention at its start. -/
theorem mentionAt?_append_of_lineEnd (line : List Char) {rest : List Char}
    (h : ∀ c ∈ rest.head?, c = '\n') : mentionAt? (line ++ rest) = mentionAt? line := by
  cases rest with
  | nil => rw [List.append_nil]
  | cons c rest =>
    obtain rfl := h c rfl
    exact mentionAt?_lineFeed line rest

end Text

namespace Token

theorem not_isIndent_lineFeed : ¬ isIndent '\n' := by decide

/-- A line is its indentation and the rest. -/
theorem exists_indent (line : List Char) : ∃ gap rest, line = gap ++ rest ∧
    line.takeWhile isIndent = gap ∧ line.dropWhile isIndent = rest ∧ (∀ c ∈ gap, isIndent c) ∧
      ∀ c ∈ rest.head?, ¬ isIndent c := by
  refine ⟨_, _, List.takeWhile_append_dropWhile.symm, rfl, rfl, ?_, ?_⟩
  · intro c hc
    exact List.mem_takeWhile_imp hc
  · intro c hc
    have hn := List.head?_dropWhile_not isIndent line
    rw [hc] at hn
    simpa using hn

namespace Lays

private theorem append {before after as bs : List Char} {ts us : List Token}
    (ht : Lays (bs ++ after) before ts as) (hu : Lays after (before ++ as) us bs) :
    Lays after before (ts ++ us) (as ++ bs) := by
  induction ht with
  | nil => rwa [List.append_nil] at hu
  | cons hg hl hs _ ih =>
    rw [List.append_assoc, List.cons_append]
    refine .cons hg hl ?_ (ih ?_)
    · rwa [List.append_assoc]
    · simpa only [List.append_assoc] using hu

private theorem cons_span {before span rest after : List Char} {lexeme : Lexeme} {ts : List Token}
    (hs : lexeme.Spells before span (rest ++ after)) (ht : Lays after (before ++ span) ts rest) :
    Lays after before (placed before lexeme span :: ts) (span ++ rest) := by
  have hg : ∀ c ∈ ([] : List Char), isIndent c := by simp
  rw [← List.append_nil before] at hs ht
  have h := Lays.cons hg (fun hn => absurd rfl hn) hs ht
  rwa [List.append_nil, List.nil_append] at h

private theorem ofRest {before line span after : List Char} {last : Lexeme} (hn : '\n' ∉ line)
    (hs : ∀ b, last.Spells b span after) (hz : ∀ c ∈ (span ++ after).head?, c = '\n')
    (hm : AtLineStart before → mentionAt? (line ++ (span ++ after)) = none) :
    Lays after before (Token.ofRest (Position.start.after before) line ++
      [placed (before ++ line) last span]) (line ++ span) := by
  have hlast (b : List Char) : Lays after b [placed b last span] span := by
    have h := cons_span (hs b) (.nil : Lays after (b ++ span) [] [])
    rwa [List.append_nil] at h
  cases line with
  | nil =>
    rw [List.append_nil]
    exact hlast before
  | cons c line =>
    have ht : (Lexeme.text (String.ofList (c :: line))).Spells before (c :: line) (span ++ after) :=
      .text (List.cons_ne_nil c line) hn hz hm
    have h := cons_span ht (hlast (before ++ c :: line))
    rw [placed, Position.after_append] at h
    exact h

private theorem indent {before gap cs after : List Char} {ts : List Token}
    (hg : ∀ c ∈ gap, isIndent c)
    (hb : AtLineStart before) (hne : ts ≠ []) (h : Lays after (before ++ gap) ts cs) :
    Lays after before ts (gap ++ cs) := by
  cases h with
  | nil => exact absurd rfl hne
  | @cons _ gap' span rest lexeme ts hg' _ hs ht =>
    have hgap : ∀ c ∈ gap ++ gap', isIndent c := by
      intro c hc
      exact (List.mem_append.mp hc).elim (hg c) (hg' c)
    rw [List.append_assoc before] at hs ht ⊢
    have := Lays.cons hgap (fun _ => hb) hs ht
    simpa only [List.append_assoc] using this

private theorem ofLine {before line span after : List Char} {last : Lexeme}
    (hb : AtLineStart before)
    (hn : '\n' ∉ line) (hs : ∀ b, last.Spells b span after)
    (hz : ∀ c ∈ (span ++ after).head?, c = '\n') :
    Lays after before (Token.ofLine (Position.start.after before) line ++
      [placed (before ++ line) last span]) (line ++ span) := by
  rw [Token.ofLine]
  cases hm : mentionAt? line with
  | some name =>
    obtain ⟨r, rfl, hname, hr⟩ := mention_split hm
    have hmark : '\n' ∉ '@' :: name := by
      intro h
      exact hn (List.mem_append_left r h)
    have hstop : ∀ c ∈ (r ++ span ++ after).head?, ¬ isNameChar c := by
      cases r with
      | nil =>
        intro c hc
        obtain rfl := hz c hc
        decide
      | cons c r => exact hr
    have hrest : Lays after (before ++ '@' :: name)
        (Token.ofRest (Position.start.after (before ++ '@' :: name)) r ++
          [placed (before ++ '@' :: name ++ r) last span]) (r ++ span) :=
      ofRest (fun h => hn (List.mem_append_right ('@' :: name) h)) hs hz fun h =>
        absurd h (not_atLineStart_append (List.cons_ne_nil '@' name) hmark)
    have h := cons_span (.marker hb (head_of_mentionAt?_name hm) hname hstop) hrest
    simp only [placed, Position.after_append, List.append_assoc, List.cons_append,
      List.drop_succ_cons, List.drop_left] at h ⊢
    exact h
  | none =>
    obtain ⟨gap, r, rfl, hgap, hrest, hi, -⟩ := exists_indent line
    have hm' : AtLineStart (before ++ gap) → mentionAt? (r ++ (span ++ after)) = none := by
      intro h
      have hnil : gap = [] := by
        by_contra hne
        exact not_atLineStart_append hne (fun h => hn (List.mem_append_left r h)) h
      rw [mentionAt?_append_of_lineEnd r hz]
      rwa [hnil, List.nil_append] at hm
    have h := indent hi hb (by simp) (ofRest (fun h => hn (List.mem_append_right gap h)) hs hz hm')
    rw [hgap, hrest]
    simp only [Position.after_append, List.append_assoc] at h ⊢
    exact h

private theorem ofTextAt {before : List Char} (hb : AtLineStart before) (cs : List Char) :
    Lays [] before (ofTextAt (Position.start.after before) cs) cs := by
  induction cs using line_induction generalizing before with
  | last line hn =>
    have h := ofLine hb hn (fun b => .endOfInput) (by simp)
    rw [placed, List.append_nil, List.append_nil, Position.after_append] at h
    rwa [ofTextAt_line _ hn]
  | cons line rest hn ih =>
    have hl : Lays (rest ++ []) before _ (line ++ ['\n']) :=
      ofLine hb hn (fun b => .newline) (by simp)
    have hb' : AtLineStart (before ++ (line ++ ['\n'])) := by
      rw [← List.append_assoc]
      exact atLineStart_concat_lineFeed _
    have h := hl.append (ih hb')
    rw [ofTextAt_cons _ _ hn]
    simp only [placed, Position.after_append, List.append_assoc, List.cons_append, List.nil_append]
      at h
    exact h

/-- A token of a layout stands somewhere in the text, spelt as its lexeme is. -/
theorem exists_of_mem {before after cs : List Char} {ts : List Token} (h : Lays after before ts cs)
    {t : Token} (ht : t ∈ ts) :
    ∃ lead span trail, cs ++ after = lead ++ span ++ trail ∧
      t = placed (before ++ lead) t.lexeme span ∧ t.lexeme.Spells (before ++ lead) span trail := by
  induction h with
  | nil => cases ht
  | @cons before gap span rest lexeme ts _ _ hs _ ih =>
    rcases List.mem_cons.mp ht with rfl | ht
    · exact ⟨gap, span, rest ++ after, List.append_assoc _ _ _, rfl, hs⟩
    · obtain ⟨lead, span', trail, he, hp, hs'⟩ := ih ht
      refine ⟨gap ++ span ++ lead, span', trail, ?_, ?_, ?_⟩
      · rw [List.append_assoc, he]
        simp only [List.append_assoc]
      · simpa only [List.append_assoc] using hp
      · simpa only [List.append_assoc] using hs'

end Lays

/-- A token and a later one, with their spans and the text between these. -/
def IsBefore (t u : Token) : Prop :=
  ∃ before span between span' trail, t = placed before t.lexeme span ∧
    t.lexeme.Spells before span (between ++ span' ++ trail) ∧
    u = placed (before ++ span ++ between) u.lexeme span' ∧
    u.lexeme.Spells (before ++ span ++ between) span' trail

theorem Lays.pairwise_isBefore {before after cs : List Char} {ts : List Token}
    (h : Lays after before ts cs) : ts.Pairwise IsBefore := by
  induction h with
  | nil => exact .nil
  | @cons before gap span rest lexeme ts _ _ hs ht ih =>
    refine .cons ?_ ih
    intro u hu
    obtain ⟨between, span', trail, he, hp, hs'⟩ := ht.exists_of_mem hu
    refine ⟨before ++ gap, span, between, span', trail, rfl, ?_, hp, hs'⟩
    rwa [← he]

@[simp] theorem placed_start_offset (before span : List Char) (lexeme : Lexeme) :
    (placed before lexeme span).range.start.offset = byteLength before :=
  Position.offset_start_after before

@[simp] theorem placed_stop_offset (before span : List Char) (lexeme : Lexeme) :
    (placed before lexeme span).range.stop.offset = byteLength (before ++ span) :=
  Position.offset_start_after _

@[simp] theorem placed_start_line (before span : List Char) (lexeme : Lexeme) :
    (placed before lexeme span).range.start.line = 1 + before.count '\n' :=
  Position.line_after _ _

end Token

namespace Lexeme.Spells

variable {before span after : List Char} {lexeme : Lexeme}

private theorem ne_nil (h : lexeme.Spells before span after) (hn : lexeme ≠ .endOfInput) :
    span ≠ [] := by
  cases h with
  | marker => exact List.cons_ne_nil _ _
  | text hc => exact hc
  | newline => exact List.cons_ne_nil _ _
  | endOfInput => exact absurd rfl hn

private theorem ne_endOfInput (h : lexeme.Spells before span after) (ha : after ≠ []) :
    lexeme ≠ .endOfInput := by
  rintro rfl
  cases h
  exact ha rfl

private theorem count_lineFeed (h : lexeme.Spells before span after) :
    span.count '\n' = if lexeme = .newline then 1 else 0 := by
  cases h with
  | @marker name _ _ _ hn _ =>
    have hm : '\n' ∉ '@' :: name := by
      intro hm
      rcases List.mem_cons.mp hm with he | hm
      · exact absurd he (by decide)
      · exact absurd (hn _ hm) (by decide)
    rw [List.count_eq_zero.mpr hm, if_neg (by simp)]
  | text _ hn => rw [List.count_eq_zero.mpr hn, if_neg (by simp)]
  | newline => rfl
  | endOfInput => rfl

end Lexeme.Spells

namespace Token

private theorem atLineStart_of_isMarker {before span after : List Char} {t : Token}
    (h : t.lexeme.Spells before span after) (ht : t.isMarker) : AtLineStart before := by
  rw [isMarker] at ht
  generalize t.lexeme = lexeme at h ht
  cases h with
  | marker hb => exact hb
  | _ => cases ht

private theorem line_of_isText {before span after : List Char} {t : Token}
    (h : t.lexeme.Spells before span after) (ht : t.isText) :
    '\n' ∉ span ∧ ∀ c ∈ after.head?, c = '\n' := by
  rw [isText] at ht
  generalize t.lexeme = lexeme at h ht
  cases h with
  | text _ hn hz => exact ⟨hn, hz⟩
  | _ => cases ht

theorem ne_endOfInput_of_isMarker {t : Token} (h : t.isMarker) : t.lexeme ≠ .endOfInput := by
  intro he
  rw [isMarker, he] at h
  cases h

private theorem ne_endOfInput_of_isText {t : Token} (h : t.isText) : t.lexeme ≠ .endOfInput := by
  intro he
  rw [isText, he] at h
  cases h

theorem IsBefore.offset_le {t u : Token} (h : t.IsBefore u) :
    t.range.stop.offset ≤ u.range.start.offset := by
  obtain ⟨before, span, between, span', trail, ht, -, hu, -⟩ := h
  rw [ht, hu, placed_stop_offset, placed_start_offset, byteLength_append _ between]
  exact Nat.le_add_right _ _

private theorem IsBefore.line_lt_of_isMarker {t u : Token} (h : t.IsBefore u) (hu : u.isMarker) :
    t.range.start.line < u.range.start.line := by
  obtain ⟨before, span, between, span', trail, ht, hs, hu', hs'⟩ := h
  have hspan' := hs'.ne_nil (ne_endOfInput_of_isMarker hu)
  have hspan := hs.ne_nil (hs.ne_endOfInput (by simp [hspan']))
  have hl := atLineStart_of_isMarker hs' hu
  rw [List.append_assoc] at hl
  have := count_lt_of_atLineStart hl (by simp [hspan])
  rw [ht, hu', placed_start_line, placed_start_line, List.append_assoc]
  omega

private theorem IsBefore.line_lt_of_isText {t u : Token} (h : t.IsBefore u) (ht : t.isText)
    (hu : u.isText) : t.range.start.line < u.range.start.line := by
  obtain ⟨before, span, between, span', trail, ht', hs, hu', hs'⟩ := h
  obtain ⟨-, hz⟩ := line_of_isText hs ht
  obtain ⟨hn, -⟩ := line_of_isText hs' hu
  obtain ⟨c, cs, rfl⟩ := List.exists_cons_of_ne_nil (hs'.ne_nil (ne_endOfInput_of_isText hu))
  cases between with
  | nil =>
    obtain rfl := hz c rfl
    exact absurd List.mem_cons_self hn
  | cons d between =>
    obtain rfl := hz d rfl
    have : 0 < ('\n' :: between).count '\n' := List.count_pos_iff.mpr List.mem_cons_self
    rw [ht', hu', placed_start_line, placed_start_line, List.count_append, List.count_append]
    omega

private theorem Lays.countP_isNewline {before after cs : List Char} {ts : List Token}
    (h : Lays after before ts cs) : ts.countP (·.isNewline) = cs.count '\n' := by
  induction h with
  | nil => rfl
  | @cons before gap span rest lexeme ts hg _ hs _ ih =>
    have hgap : gap.count '\n' = 0 :=
      List.count_eq_zero.mpr fun hm => not_isIndent_lineFeed (hg _ hm)
    have hnew : (placed (before ++ gap) lexeme span).isNewline = decide (lexeme = .newline) := rfl
    rw [List.countP_cons, ih, List.count_append, List.count_append, hgap, hs.count_lineFeed, hnew,
      Nat.zero_add, Nat.add_comm]
    simp only [decide_eq_true_eq]

/-- The tokens of a text are laid out over it. -/
theorem lays_tokenize (source : String) : Lays [] [] (tokenize source) source.toList :=
  Lays.ofTextAt (.inl rfl) source.toList

theorem tokenize_eq (source : String) : tokenize source =
    content .start source.toList ++ [finish (Position.start.after source.toList)] :=
  ofTextAt_eq .start source.toList

private theorem Lays.start_lt_stop {before after cs : List Char} {ts : List Token}
    (h : Lays after before ts cs) {t : Token} (ht : t ∈ ts) (hn : t.isEndOfInput = false) :
    t.range.start.offset < t.range.stop.offset := by
  obtain ⟨lead, span, trail, -, hp, hs⟩ := h.exists_of_mem ht
  have hspan := byteLength_pos (hs.ne_nil (by simpa [isEndOfInput] using hn))
  rw [hp, placed_start_offset, placed_stop_offset, byteLength_append _ span]
  omega

def onLine (n : Nat) (ts : List Token) : List Token := ts.filter (·.range.start.line = n)

private theorem line_of_mem_onLine {n : Nat} {ts : List Token} {t : Token} (h : t ∈ onLine n ts) :
    t.range.start.line = n :=
  of_decide_eq_true (List.mem_filter.mp h).2

private theorem onLine_tail {ts : List Token} (h : ts.Pairwise IsBefore) (n : Nat) :
    ∀ t ∈ (onLine n ts).tail, t.isMarker = false := by
  have hp : (onLine n ts).Pairwise IsBefore := h.filter _
  have hl : ∀ t ∈ onLine n ts, t.range.start.line = n := fun _ ht => line_of_mem_onLine ht
  cases hr : onLine n ts with
  | nil => simp
  | cons t us =>
    intro u hu
    rw [hr] at hp hl
    by_contra hm
    have hlt := ((List.pairwise_cons.mp hp).1 u hu).line_lt_of_isMarker (by simpa using hm)
    rw [hl t List.mem_cons_self, hl u (List.mem_cons_of_mem t hu)] at hlt
    exact Nat.lt_irrefl n hlt

private theorem countP_onLine_le {ts : List Token} (h : ts.Pairwise IsBefore) (n : Nat) :
    (onLine n ts).countP (·.isText) ≤ 1 := by
  have hp : ((onLine n ts).filter (·.isText)).Pairwise IsBefore := (h.filter _).filter _
  rw [List.countP_eq_length_filter]
  rcases hr : (onLine n ts).filter (·.isText) with _ | ⟨t, _ | ⟨u, us⟩⟩
  · rw [hr]
    exact Nat.zero_le _
  · rw [hr]
    exact Nat.le_refl _
  · have hm (v : Token) (hv : v ∈ t :: u :: us) : v.isText ∧ v.range.start.line = n := by
      rw [← hr] at hv
      exact ⟨(List.mem_filter.mp hv).2, line_of_mem_onLine (List.mem_filter.mp hv).1⟩
    obtain ⟨ht, htl⟩ := hm t List.mem_cons_self
    obtain ⟨hu, hul⟩ := hm u (List.mem_cons_of_mem t List.mem_cons_self)
    rw [hr] at hp
    have hlt := ((List.pairwise_cons.mp hp).1 u List.mem_cons_self).line_lt_of_isText ht hu
    rw [htl, hul] at hlt
    exact absurd hlt (Nat.lt_irrefl n)

/-- The tokens of a text lose nothing of it but indentation and have a fixed order: the end of input
comes last and only there, every other token has a span, spans do not overlap, there is a newline
for each line feed, and a line has a marker at its start or none and at most one text. -/
theorem tokenize_layout (source : String) :
    (∃ init last, tokenize source = init ++ [last] ∧ last.isEndOfInput ∧
      ∀ t ∈ init, t.isEndOfInput = false ∧ t.range.start.offset < t.range.stop.offset) ∧
    Lays [] [] (tokenize source) source.toList ∧
    (tokenize source).Pairwise (fun t u => t.range.stop.offset ≤ u.range.start.offset) ∧
    (tokenize source).countP (·.isNewline) = source.toList.count '\n' ∧
    ∀ n, (∀ t ∈ (onLine n (tokenize source)).tail, t.isMarker = false) ∧
      (onLine n (tokenize source)).countP (·.isText) ≤ 1 := by
  have hl := lays_tokenize source
  have hp := hl.pairwise_isBefore
  have he := tokenize_eq source
  refine ⟨⟨_, _, he, rfl, ?_⟩, hl, hp.imp IsBefore.offset_le, hl.countP_isNewline, fun n =>
    ⟨onLine_tail hp n, countP_onLine_le hp n⟩⟩
  intro t ht
  have hn : t.isEndOfInput = false := by simpa using List.mem_takeWhile_imp ht
  refine ⟨hn, hl.start_lt_stop ?_ hn⟩
  rw [he]
  exact List.mem_append_left _ ht

end Token

end ConceptMarkup
