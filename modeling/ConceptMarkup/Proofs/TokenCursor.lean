import ConceptMarkup.Proofs.OffsetProse
import ConceptMarkup.Proofs.TokenScan

/-! Concepts read off the tokens with a cursor. The cursor is an index into the stream, and to take
a token is to index the stream, which can fail. Three loops move it: over the newlines at the start,
over the tokens outside any concept, and over the body of a concept. On the tokens of a text every
token that is taken is there, and all of them are taken but the end of input. -/
namespace ConceptMarkup
open Text

private theorem getElem?_of_drop {α : Type} {l rest : List α} {i : Nat} {a : α}
    (h : l.drop i = a :: rest) : l[i]? = some a ∧ l.drop (i + 1) = rest := by
  constructor
  · rw [← List.head?_drop, h, List.head?_cons]
  · rw [← List.tail_drop, h, List.tail_cons]

namespace Token

def check (kind : Token → Bool) (ts : List Token) (i : Nat) : Bool := ts[i]?.any kind

def isProse (t : Token) : Bool := t.isText || t.isNewline

def takeOne? (kind : Token → Bool) (ts : List Token) (i : Nat) : Option (List Token) :=
  if check kind ts i then ts[i]?.map ([·]) else some []

private theorem lt_length_of_check {kind : Token → Bool} {ts : List Token} {i : Nat}
    (h : check kind ts i) : i < ts.length := by
  rw [check] at h
  cases ht : ts[i]? with
  | none =>
    rw [ht] at h
    cases h
  | some t => exact (List.getElem?_eq_some_iff.mp ht).1

/-- Takes tokens from an index on for as long as they are of a kind. -/
def takeRun? (kind : Token → Bool) (ts : List Token) (i : Nat) : Option (List Token) := do
  if _h : check kind ts i then
    let t ← ts[i]?
    let run ← takeRun? kind ts (i + 1)
    some (t :: run)
  else some []
termination_by ts.length - i
decreasing_by
  have := lt_length_of_check _h
  omega

private theorem check_eq (kind : Token → Bool) (ts : List Token) (i : Nat) :
    check kind ts i = (ts.drop i).head?.any kind := by
  rw [check, List.head?_drop]

private theorem takeRun?_eq (kind : Token → Bool) (ts : List Token) (i : Nat) :
    takeRun? kind ts i = some ((ts.drop i).takeWhile kind) := by
  induction h : ts.drop i generalizing i with
  | nil =>
    rw [takeRun?, check_eq, h]
    rfl
  | cons t us ih =>
    obtain ⟨ht, hu⟩ := getElem?_of_drop h
    rw [takeRun?, check_eq, h, List.head?_cons, Option.any_some, List.takeWhile_cons]
    cases kind t with
    | false => rfl
    | true => simp only [ht, ih (i + 1) hu, Option.bind_eq_bind, Option.bind_some, ↓reduceIte,
        ↓reduceDIte]

private theorem takeOne?_eq (kind : Token → Bool) (ts : List Token) (i : Nat) :
    takeOne? kind ts i = some ((ts.drop i).head?.filter kind).toList := by
  rw [takeOne?, check_eq, ← List.head?_drop]
  cases (ts.drop i).head? with
  | none => rfl
  | some t => cases h : kind t <;> simp [h, Option.filter_some]

private theorem filter_head_append_body {us rest : List Token}
    (h : ∀ t ∈ rest.head?, ¬ t.isNewline) :
    ((us ++ rest).head?.filter isNewline).toList ++ body us = us := by
  cases us with
  | nil =>
    rw [List.nil_append, Option.filter_eq_none_iff.mpr h]
    rfl
  | cons t us => cases hn : t.isNewline <;> simp [body, hn, Option.filter_some]

private theorem isProse_eq (t : Token) : t.isProse = (!t.isMarker && !t.isEndOfInput) := by
  obtain ⟨lexeme, range⟩ := t
  cases lexeme <;> rfl

end Token

namespace Prose

/-- The block of prose from the start of the first of some tokens to the stop of the last. -/
def ofTokens? (index : LineIndex) (ts : List Token) : Option (Option Prose) :=
  match ts.head?, ts.getLast? with
  | some first, some last => between? index first.range.start.offset last.range.stop.offset
  | _, _ => some none

private theorem ofTokens?_of_covers (before after : List Char) {body : List Char} {ts : List Token}
    (h : Token.Covers (Position.start.after before) body ts) :
    ofTokens? (.ofText (before ++ body ++ after)) ts =
      some (ofBody? (Position.start.after before) body) := by
  cases h with
  | nothing hb =>
    rw [ofBody?_of_blank _ hb]
    rfl
  | between lead mid trail he hl ht hf hs hg hz =>
    have hb := between?_eq (before ++ lead) mid (trail ++ after)
    rw [he, ofBody?_append _ lead mid trail hl ht]
    simp only [ofTokens?, hf, hg, hs, hz, ← Position.after_append, Position.offset_start_after,
      List.append_assoc] at hb ⊢
    exact hb

private theorem offset_le_of_ofBody? {p : Position} {body : List Char} {block : Prose}
    (h : ofBody? p body = some block) : p.offset ≤ block.range.stop.offset := by
  by_cases hb : Blank body
  · rw [ofBody?_of_blank p hb] at h
    cases h
  · obtain ⟨lead, text, trail, ht, hn⟩ := exists_trimmed_of_not_blank hb
    rw [ofBody?_of_trimmed p ht hn] at h
    cases h
    simp only [Position.offset_after]
    omega

end Prose

namespace Concept
open Token

/-- Reads the concept whose marker is at an index. Yields the tokens taken for it, too. -/
def read? (index : LineIndex) (ts : List Token) (i : Nat) : Option (Concept × List Token) := do
  let marker ← ts[i]?
  let nameRange ← Range.forward? marker.range.start marker.range.stop
  let opening ← takeOne? isNewline ts (i + 1)
  let body ← takeRun? isProse ts (i + 1 + opening.length)
  let block ← Prose.ofTokens? index body
  let range ← Range.forward? marker.range.start (block.elim marker.range.stop (·.range.stop))
  some (⟨marker.lexeme.value, nameRange, block.toList, range⟩, marker :: (opening ++ body))

private theorem length_pos_of_read? {index : LineIndex} {ts taken : List Token} {i : Nat}
    {c : Concept}
    (h : read? index ts i = some (c, taken)) : 0 < taken.length := by
  simp only [read?, Option.bind_eq_bind, Option.bind_eq_some_iff] at h
  obtain ⟨_, -, _, -, _, -, _, -, _, -, _, -, he⟩ := h
  cases he
  exact Nat.succ_pos _

private theorem forward?_ofBody (p : Position) (name body : List Char) :
    Range.forward? p ((Prose.ofBody? (p.after ('@' :: name)) body).elim
      (p.after ('@' :: name)) (·.range.stop)) = some (ofBody p name body).range := by
  have hle : p.offset ≤ (p.after ('@' :: name)).offset := by
    rw [Position.offset_after]
    exact Nat.le_add_right _ _
  rw [Range.forward?, if_pos]
  · rfl
  · cases hf : Prose.ofBody? (p.after ('@' :: name)) body with
    | none => exact hle
    | some block => exact hle.trans (Prose.offset_le_of_ofBody? hf)

private theorem read?_eq {before name body : List Char} (after : List Char)
    {ts us rest : List Token}
    {i : Nat}
    (hc : Covers ((Position.start.after before).after ('@' :: name)) body (Token.body us))
    (hp : ∀ t ∈ us, t.isProse) (hs : ∀ t ∈ rest.head?, ¬ t.isProse)
    (hd : ts.drop i = ⟨.marker (String.ofList name), Position.start.after before,
      (Position.start.after before).after ('@' :: name)⟩ :: (us ++ rest)) :
    read? (.ofText (before ++ '@' :: (name ++ body) ++ after)) ts i =
      some (.ofBody (Position.start.after before) name body,
        ⟨.marker (String.ofList name), Position.start.after before,
          (Position.start.after before).after ('@' :: name)⟩ :: us) := by
  obtain ⟨hm, hu⟩ := getElem?_of_drop hd
  have hopen := takeOne?_eq isNewline ts (i + 1)
  have hus : _ ++ Token.body us = us :=
    filter_head_append_body fun t ht hn => hs t ht (by simp [isProse, hn])
  rw [hu] at hopen
  generalize ((us ++ rest).head?.filter isNewline).toList = opening at hopen hus
  have hrun : takeRun? isProse ts (i + 1 + opening.length) = some (Token.body us) := by
    rw [takeRun?_eq, ← List.drop_drop, hu, ← hus, List.append_assoc, List.drop_left, hus,
      takeWhile_append_stop _ hs]
    intro t ht
    exact hp t (hus ▸ List.mem_append_right opening ht)
  have hblock := Prose.ofTokens?_of_covers (before ++ '@' :: name) after
    (by rwa [Position.after_append])
  have he : before ++ '@' :: (name ++ body) ++ after = before ++ '@' :: name ++ body ++ after := by
    simp only [List.append_assoc, List.cons_append]
  rw [← he, Position.after_append] at hblock
  generalize Position.start.after before = p at hm hblock ⊢
  simp only [read?, hm, Range.forward?_after, hopen, hrun, hblock, forward?_ofBody, hus,
    Option.bind_eq_bind, Option.bind_some]
  rfl

end Concept

/-- What was done with the tokens of a stream. -/
structure Reading where
  /-- The tokens in the order in which they were taken. -/
  taken : List Token
  /-- Those that were passed over, each with a log line. -/
  strays : List Token
  concepts : List Concept

namespace Reading
open Token

/-- Reads from an index on. A marker begins a concept, any other token is passed over. -/
def from? (index : LineIndex) (ts : List Token) (i : Nat) : Option Reading := do
  if _hi : ts.length ≤ i || check isEndOfInput ts i then some ⟨[], [], []⟩
  else if check isMarker ts i then
    match _hr : Concept.read? index ts i with
    | none => none
    | some (concept, taken) =>
      let r ← from? index ts (i + taken.length)
      some { r with taken := taken ++ r.taken, concepts := concept :: r.concepts }
  else
    let t ← ts[i]?
    let r ← from? index ts (i + 1)
    some { r with taken := t :: r.taken, strays := t :: r.strays }
termination_by ts.length - i
decreasing_by
  all_goals
    simp only [Bool.or_eq_true, decide_eq_true_eq, not_or] at _hi
  · have := Concept.length_pos_of_read? _hr
    omega
  · omega

variable {index : LineIndex} {ts rest : List Token} {t : Token} {i : Nat}

private theorem from?_of_isEndOfInput (hd : ts.drop i = t :: rest) (ht : t.isEndOfInput) :
    from? index ts i = some ⟨[], [], []⟩ := by
  rw [from?, check_eq, hd, List.head?_cons, Option.any_some, ht, Bool.or_true, dif_pos rfl]

private theorem lt_length_of_drop (hd : ts.drop i = t :: rest) : i < ts.length := by
  have := congrArg List.length hd
  rw [List.length_drop, List.length_cons] at this
  omega

private theorem from?_of_stray (hd : ts.drop i = t :: rest) (hm : ¬ t.isMarker)
    (he : ¬ t.isEndOfInput) :
    from? index ts i = (from? index ts (i + 1)).map fun r =>
      { r with taken := t :: r.taken, strays := t :: r.strays } := by
  have hlt := lt_length_of_drop hd
  have hend : ¬ (ts.length ≤ i || check isEndOfInput ts i) := by simpa [check_eq, hd, hlt] using he
  have hmark : ¬ check isMarker ts i := by simpa [check_eq, hd] using hm
  rw [from?, dif_neg hend, if_neg hmark, (getElem?_of_drop hd).1]
  cases from? index ts (i + 1) <;> rfl

private theorem from?_of_concept {c : Concept} {taken : List Token} (hd : ts.drop i = t :: rest)
    (hm : t.isMarker) (hc : Concept.read? index ts i = some (c, taken)) :
    from? index ts i = (from? index ts (i + taken.length)).map fun r =>
      { r with taken := taken ++ r.taken, concepts := c :: r.concepts } := by
  have hlt := lt_length_of_drop hd
  have hend : ¬ (ts.length ≤ i || check isEndOfInput ts i) := by
    have := ne_endOfInput_of_isMarker hm
    simpa [check_eq, hd, hlt, isEndOfInput] using this
  have hmark : check isMarker ts i := by simpa [check_eq, hd] using hm
  rw [from?, dif_neg hend, if_pos hmark]
  split
  · next h =>
    rw [hc] at h
    cases h
  · next h =>
    rw [hc] at h
    cases h
    cases from? index ts (i + taken.length) <;> rfl

private theorem from?_append {strays : List Token} (hm : ∀ t ∈ strays, ¬ t.isMarker)
    (he : ∀ t ∈ strays, ¬ t.isEndOfInput) (hd : ts.drop i = strays ++ rest) :
    from? index ts i = (from? index ts (i + strays.length)).map fun r =>
      { r with taken := strays ++ r.taken, strays := strays ++ r.strays } := by
  induction strays generalizing i with
  | nil =>
    rw [List.length_nil, Nat.add_zero]
    cases from? index ts i <;> rfl
  | cons t strays ih =>
    rw [from?_of_stray hd (hm t List.mem_cons_self) (he t List.mem_cons_self),
      ih (fun u hu => hm u (List.mem_cons_of_mem t hu))
        (fun u hu => he u (List.mem_cons_of_mem t hu)) (getElem?_of_drop hd).2,
      List.length_cons, Nat.add_comm strays.length, Nat.add_assoc]
    cases from? index ts (i + (1 + strays.length)) <;> rfl

end Reading

namespace Token

def joined (parts : List (Token × List Token)) : List Token := parts.flatMap fun (m, us) => m :: us

private theorem sections_joined (ts : List Token) :
    (sections ts).1 ++ joined (sections ts).2 = ts ∧ (∀ t ∈ (sections ts).1, ¬ t.isMarker) ∧
      ∀ part ∈ (sections ts).2, part.1.isMarker ∧ ∀ t ∈ part.2, ¬ t.isMarker := by
  induction ts with
  | nil => simp [sections, joined]
  | cons t ts ih =>
    obtain ⟨hj, hl, hp⟩ := ih
    by_cases hm : t.isMarker
    · rw [sections_marker ts hm]
      refine ⟨?_, by simp, ?_⟩
      · rw [joined, List.flatMap_cons, ← joined, List.nil_append, List.cons_append, hj]
      · intro part hpart
        rcases List.mem_cons.mp hpart with rfl | hpart
        · exact ⟨hm, hl⟩
        · exact hp part hpart
    · have hs : sections (t :: ts) = (t :: (sections ts).1, (sections ts).2) := by
        simp [sections, hm]
      rw [hs]
      refine ⟨congrArg (t :: ·) hj, ?_, hp⟩
      intro u hu
      rcases List.mem_cons.mp hu with rfl | hu
      · exact hm
      · exact hl u hu

/-- Sections whose tokens the body loop takes. -/
def Whole (parts : List (Token × List Token)) : Prop :=
  ∀ part ∈ parts, part.1.isMarker ∧ ∀ t ∈ part.2, t.isProse

private theorem not_isProse_head {parts : List (Token × List Token)} {last : Token}
    (h : Whole parts)
    (hl : last.isEndOfInput) : ∀ t ∈ (joined parts ++ [last]).head?, ¬ t.isProse := by
  intro t ht
  cases parts with
  | nil =>
    cases ht
    simp [isProse_eq, hl]
  | cons part parts =>
    cases ht
    simp [isProse_eq, (h part List.mem_cons_self).1]

end Token

namespace Reading
open Token

private theorem from?_of_reads {before : List Char} (after : List Char) {css : List (List Char)}
    {parts : List (Token × List Token)} {ts : List Token} {last : Token} {i : Nat}
    (h : Reads (Position.start.after before) css parts) (hw : Whole parts)
    (hl : last.isEndOfInput) (hd : ts.drop i = joined parts ++ [last]) :
    from? (.ofText (before ++ css.flatten ++ after)) ts i =
      some ⟨joined parts, [], Concept.ofTexts (Position.start.after before) css⟩ := by
  generalize hp : Position.start.after before = p at h
  induction h generalizing before i with
  | nil => exact from?_of_isEndOfInput hd hl
  | @cons p name body us rest parts hm hc _ ih =>
    subst hp
    obtain ⟨hprose, hw⟩ := List.forall_mem_cons.mp hw
    rw [joined, List.flatMap_cons, ← joined, List.append_assoc, List.cons_append] at hd
    have hread := Concept.read?_eq (rest.flatten ++ after) hc hprose.2 (not_isProse_head hw hl) hd
    have he : before ++ (('@' :: (name ++ body)) :: rest).flatten ++ after =
        before ++ '@' :: (name ++ body) ++ (rest.flatten ++ after) := by
      simp only [List.flatten_cons, List.append_assoc]
    have hnext : ts.drop (i + (us.length + 1)) = joined parts ++ [last] := by
      rw [← List.drop_drop, hd, List.drop_succ_cons, List.drop_left]
    have ht := ih hw hnext (Position.after_append _ before ('@' :: (name ++ body)))
    rw [List.append_assoc (before ++ '@' :: (name ++ body))] at ht
    rw [he, from?_of_concept hd rfl hread, List.length_cons, ht, Concept.ofTexts,
      Concept.ofText_eq _ hm]
    rfl

end Reading

namespace Token

/-- A stream cut into the newlines at its start, the tokens up to the first marker, the tokens from
there on, and the end of input. -/
structure Parts (ts newlines strays rest : List Token) (last : Token) : Prop where
  whole : ts = newlines ++ strays ++ rest ++ [last]
  newlines_all : ∀ t ∈ newlines, t.isNewline
  strays_head : ∀ t ∈ strays.head?, ¬ t.isNewline
  strays_all : ∀ t ∈ strays, ¬ t.isMarker
  rest_head : ∀ t ∈ rest.head?, t.isMarker
  last_end : last.isEndOfInput
  others : ∀ t ∈ newlines ++ strays ++ rest, ¬ t.isEndOfInput

namespace Parts

variable {ts newlines strays rest : List Token} {last : Token}

private theorem drop_newlines (h : Parts ts newlines strays rest last) :
    ts.drop newlines.length = strays ++ (rest ++ [last]) := by
  rw [h.whole, List.append_assoc, List.append_assoc, List.drop_left]

private theorem drop_strays (h : Parts ts newlines strays rest last) :
    ts.drop (newlines.length + strays.length) = rest ++ [last] := by
  rw [← List.drop_drop, h.drop_newlines, List.drop_left]

private theorem takeRun?_eq (h : Parts ts newlines strays rest last) :
    takeRun? isNewline ts 0 = some newlines := by
  have hstop : ∀ t ∈ (strays ++ (rest ++ [last])).head?, ¬ t.isNewline := by
    intro t ht hn
    have hp : t.isProse := by rw [isProse, hn, Bool.or_true]
    rw [isProse_eq, Bool.and_eq_true, Bool.not_eq_true', Bool.not_eq_true'] at hp
    cases strays with
    | cons s strays => exact h.strays_head t ht hn
    | nil =>
      cases rest with
      | cons r rest => exact absurd (h.rest_head t ht) (by simp [hp.1])
      | nil =>
        cases ht
        exact absurd h.last_end (by simp [hp.2])
  rw [Token.takeRun?_eq, List.drop_zero, h.whole, List.append_assoc, List.append_assoc,
    takeWhile_append_stop h.newlines_all hstop]

end Parts

private theorem parts_of_sections {lead : List Token} {parts : List (Token × List Token)}
    {last : Token} (hl : ∀ t ∈ lead, ¬ t.isMarker) (hw : Whole parts) (hlast : last.isEndOfInput)
    (he : ∀ t ∈ lead ++ joined parts, ¬ t.isEndOfInput) :
    Parts (lead ++ joined parts ++ [last]) (lead.takeWhile isNewline) (lead.dropWhile isNewline)
      (joined parts) last := by
  constructor
  · rw [List.takeWhile_append_dropWhile]
  · exact fun t ht => List.mem_takeWhile_imp ht
  · intro t ht
    have hn := List.head?_dropWhile_not isNewline lead
    rw [ht] at hn
    simpa using hn
  · exact fun t ht => hl t (List.dropWhile_sublist _ |>.subset ht)
  · intro t ht
    cases parts with
    | nil => cases ht
    | cons part parts =>
      cases ht
      exact (hw part List.mem_cons_self).1
  · exact hlast
  · rwa [List.takeWhile_append_dropWhile]

end Token

namespace Document
open Token

/-- The document of a text with its tokens, and how the tokens were read. -/
def read? (source : List Char) (ts : List Token) : Option (Document × Reading) := do
  let opening ← takeRun? isNewline ts 0
  let r ← Reading.from? (.ofText source) ts opening.length
  let range ← Range.forward? .start ((ts.getLast?.map (·.range.stop)).getD .start)
  some (⟨r.concepts, range⟩, { r with taken := opening ++ r.taken })

private theorem exists_sections (source : String) :
    ∃ lead parts, sections (content .start source.toList) = (lead, parts) ∧
      content .start source.toList = lead ++ joined parts ∧ (∀ t ∈ lead, ¬ t.isMarker) ∧
      Whole parts ∧ ∀ t ∈ lead ++ joined parts, ¬ t.isEndOfInput := by
  obtain ⟨hj, hl, hp⟩ := sections_joined (content .start source.toList)
  have he : ∀ t ∈ content .start source.toList, ¬ t.isEndOfInput := by
    intro t ht
    simpa using List.mem_takeWhile_imp ht
  rw [← hj] at he
  refine ⟨_, _, rfl, hj.symm, hl, ?_, he⟩
  intro part hpart
  refine ⟨(hp part hpart).1, fun t ht => ?_⟩
  have hm := (hp part hpart).2 t ht
  have he := he t (List.mem_append_right _ (List.mem_flatMap.mpr
    ⟨part, hpart, List.mem_cons_of_mem _ ht⟩))
  simp [isProse_eq, hm, he]

/-- Reading takes every token of a text but the end of input, in order, and passes over those that
stand before the first marker and after the newlines at the start. What is read is the document. -/
theorem exists_parts (source : String) : ∃ newlines strays rest last,
    Parts (tokenize source) newlines strays rest last ∧
      Document.strays (tokenize source) = strays ∧
      read? source.toList (tokenize source) =
        some (parse source, ⟨newlines ++ strays ++ rest, strays, (parse source).concepts⟩) := by
  obtain ⟨lead, parts, hs, hc, hl, hw, he⟩ := exists_sections source
  have hlast : (finish (Position.start.after source.toList)).isEndOfInput := rfl
  have hparts := parts_of_sections hl hw hlast he
  rw [← hc, ← tokenize_eq] at hparts
  refine ⟨_, _, _, _, hparts, ?_, ?_⟩
  · have : (sections (content .start source.toList)).1 = lead := by rw [hs]
    rw [← this]
    rfl
  · have hreads := (content_reads .start source.toList).2
    rw [hs] at hreads
    have hrun := Reading.from?_of_reads [] hreads hw hparts.last_end hparts.drop_strays
    rw [List.append_nil, preamble_append_marked] at hrun
    have hothers : ∀ t ∈ lead.dropWhile isNewline, ¬ t.isEndOfInput := fun t ht =>
      hparts.others t (List.mem_append_left _ (List.mem_append_right _ ht))
    have hopen := @Reading.from?_append (.ofText source.toList) _ _ _ _ hparts.strays_all hothers
      hparts.drop_newlines
    rw [hrun] at hopen
    have hend : (tokenize source).getLast? =
        some (finish (Position.start.after source.toList)) := by
      rw [hparts.whole, List.getLast?_concat]
    have hdoc : parse source = ⟨(parse source).concepts, (parse source).range⟩ := rfl
    rw [hdoc, parse_range, parse_concepts]
    simp only [read?, hparts.takeRun?_eq, hopen, hend, finish, Range.forward?_after,
      Option.bind_eq_bind, Option.bind_some, Option.map_some, Option.getD_some, List.append_nil,
      List.append_assoc]

end Document

end ConceptMarkup
