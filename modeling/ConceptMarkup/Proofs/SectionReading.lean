import ConceptMarkup.Proofs.Sections

/-! What a document says about its text, in terms of the text alone: the markers are the mentions at
the starts of lines, and each concept is read from the stretch between its marker and the next. -/
namespace ConceptMarkup
open Text

namespace Text

theorem head_of_mentionAt? {cs name : List Char} (h : mentionAt? cs = some name) :
    cs.head? = some '@' := by
  obtain ⟨after, rfl, -⟩ := mentionAt?_eq_some_iff.mp h
  rfl

/-- Stretches that begin with mentions cannot continue a name before them. -/
theorem not_isNameChar_head_flatten {css : List (List Char)}
    (h : ∀ sec ∈ css, ∃ name, mentionAt? sec = some name) :
    ∀ b ∈ css.flatten.head?, ¬ isNameChar b := by
  intro b hb
  cases css with
  | nil => cases hb
  | cons sec css =>
    obtain ⟨name, hn⟩ := h sec List.mem_cons_self
    rw [List.flatten_cons, List.head?_append, head_of_mentionAt? hn] at hb
    cases hb
    exact not_isNameChar_at

private theorem sections_mention (fresh : Bool) (cs : List Char) :
    ∀ sec ∈ (sections fresh cs).2, ∃ name, mentionAt? sec = some name := by
  induction cs generalizing fresh with
  | nil => simp [sections]
  | cons c cs ih =>
    intro sec hs
    rw [sections] at hs
    split at hs
    · next hm =>
      rcases List.mem_cons.mp hs with rfl | hs
      · have hj := sections_join (c = '\n') cs
        have hstop := not_isNameChar_head_flatten (ih (c = '\n'))
        rw [← mentionAt?_append (List.cons_ne_nil _ _) hstop, List.cons_append, hj]
        exact Option.isSome_iff_exists.mp (Bool.and_eq_true_iff.mp hm).2
      · exact ih _ sec hs
    · exact ih _ sec hs

theorem marked_mention (cs : List Char) :
    ∀ sec ∈ marked cs, ∃ name, mentionAt? sec = some name :=
  sections_mention true cs

/-- The offsets at which stretches begin that follow one another from offset `o` on. -/
def starts (o : Nat) : List (List Char) → List Nat
  | [] => []
  | cs :: rest => o :: starts (o + byteLength cs) rest

private theorem starts_add (a o : Nat) (css : List (List Char)) :
    starts (a + o) css = (starts o css).map (a + ·) := by
  induction css generalizing o with
  | nil => rfl
  | cons cs css ih => simp only [starts, List.map_cons, Nat.add_assoc, ih]

private theorem length_starts (o : Nat) (css : List (List Char)) :
    (starts o css).length = css.length := by
  induction css generalizing o with
  | nil => rfl
  | cons cs css ih => simp [starts, ih]

theorem le_of_mem_starts {o m : Nat} {css : List (List Char)} (h : m ∈ starts o css) : o ≤ m := by
  induction css generalizing o with
  | nil => cases h
  | cons cs css ih =>
    rcases List.mem_cons.mp h with rfl | h
    · exact Nat.le_refl m
    · exact (Nat.le_add_right _ _).trans (ih h)

private theorem starts_sorted (o : Nat) {css : List (List Char)} (h : ∀ cs ∈ css, cs ≠ []) :
    (starts o css).Pairwise (· < ·) := by
  induction css generalizing o with
  | nil => exact .nil
  | cons cs css ih =>
    refine .cons ?_ (ih _ fun cs hc => h cs (List.mem_cons_of_mem _ hc))
    intro m hm
    have := byteLength_pos (h cs List.mem_cons_self)
    have := le_of_mem_starts hm
    omega

def markers (cs : List Char) : List Nat := starts (byteLength (preamble cs)) (marked cs)

private theorem markers_sorted (cs : List Char) : (markers cs).Pairwise (· < ·) := by
  apply starts_sorted
  intro sec hs
  obtain ⟨name, hn⟩ := marked_mention cs sec hs
  rintro rfl
  cases hn

private def MarkerFrom (fresh : Bool) (cs : List Char) (o : Nat) : Prop :=
  ∃ before rest, cs = before ++ rest ∧ byteLength before = o ∧
    (before = [] ∧ fresh ∨ before.getLast? = some '\n') ∧ (mentionAt? rest).isSome

private theorem markerFrom_cons {fresh : Bool} {c : Char} {cs : List Char} {o : Nat} :
    MarkerFrom fresh (c :: cs) o ↔ (o = 0 ∧ fresh ∧ (mentionAt? (c :: cs)).isSome) ∨
      ∃ n, MarkerFrom (c = '\n') cs n ∧ c.utf8Size + n = o := by
  constructor
  · rintro ⟨before, rest, he, rfl, hs, hm⟩
    cases before with
    | nil =>
      rw [List.nil_append] at he
      exact .inl ⟨rfl, by simpa using hs, he ▸ hm⟩
    | cons b before =>
      obtain ⟨rfl, rfl⟩ := List.cons.inj he
      refine .inr ⟨byteLength before, ⟨before, rest, rfl, rfl, ?_, hm⟩, rfl⟩
      cases before with
      | nil => simpa using hs
      | cons d before => simpa using hs
  · rintro (⟨rfl, hf, hm⟩ | ⟨n, ⟨before, rest, rfl, rfl, hs, hm⟩, rfl⟩)
    · exact ⟨[], c :: cs, rfl, rfl, .inl ⟨rfl, hf⟩, hm⟩
    · refine ⟨c :: before, rest, rfl, rfl, .inr ?_, hm⟩
      rcases hs with ⟨rfl, hc⟩ | hs
      · simpa using hc
      · rw [List.getLast?_cons, hs]
        rfl

private theorem mem_starts_sections {fresh : Bool} {cs : List Char} {o : Nat} :
    o ∈ starts (byteLength (sections fresh cs).1) (sections fresh cs).2 ↔
      MarkerFrom fresh cs o := by
  induction cs generalizing fresh o with
  | nil =>
    constructor
    · intro h
      cases h
    · rintro ⟨before, rest, he, -, -, hm⟩
      rw [(List.append_eq_nil_iff.mp he.symm).2] at hm
      cases hm
  | cons c cs ih =>
    have htail : o ∈ starts (c.utf8Size + byteLength (sections (c = '\n') cs).1)
        (sections (c = '\n') cs).2 ↔ ∃ n, MarkerFrom (c = '\n') cs n ∧ c.utf8Size + n = o := by
      rw [starts_add, List.mem_map]
      simp only [ih]
    rw [markerFrom_cons, sections, ← htail]
    split
    · next hm =>
      rw [Bool.and_eq_true] at hm
      simp [starts, hm]
    · next hm =>
      rw [Bool.and_eq_true] at hm
      simp [hm]

/-- The sections of a text begin where a mention stands at the start of a line. -/
theorem mem_markers_iff {cs : List Char} {o : Nat} : o ∈ markers cs ↔ MarkerAt cs o := by
  rw [markers, preamble, marked, mem_starts_sections]
  constructor
  · rintro ⟨before, rest, he, ho, hs, hm⟩
    obtain ⟨name, hn⟩ := Option.isSome_iff_exists.mp hm
    exact ⟨⟨before, rest, he, ho, hs.imp_left And.left⟩, name,
      mentionAt_iff.mpr ⟨before, rest, he, ho, hn⟩⟩
  · rintro ⟨⟨before, rest, he, ho, hs⟩, name, hm⟩
    obtain ⟨before', rest', he', ho', hn⟩ := mentionAt_iff.mp hm
    obtain ⟨rfl, rfl⟩ := append_inj_of_byteLength (he.symm.trans he') (ho.trans ho'.symm)
    exact ⟨before, rest, he, ho, hs.imp_left fun h => ⟨h, rfl⟩, by rw [hn]; rfl⟩

end Text

/-- The prose of a body that begins at byte offset `o`, and the offset at which it ends. A blank
body has none; of any other it is the text between the blanks at the two ends, where it stands. -/
inductive ProseAt (cs : List Char) (o : Nat) (body : List Char) : List Prose → Nat → Prop where
  | blank : Blank body → ProseAt cs o body [] o
  | block {lead text trail : List Char} {b : Prose} :
      ¬ Blank body → Trimmed body lead text trail → b.text = String.ofList text →
      b.range = (LineIndex.ofText cs).range (o + byteLength lead)
        (o + byteLength lead + byteLength text) →
      ProseAt cs o body [b] (o + byteLength lead + byteLength text)

/-- A concept is what stands between byte offsets `start` and `stop` of a text: a marker with its
name, and prose from the end of the marker on. -/
def SectionAt (cs : List Char) (start stop : Nat) (c : Concept) : Prop :=
  ∃ name body proseStop, MentionAt cs start name ∧
    slice? (start + 1 + byteLength name) stop cs = some body ∧
    c.name = String.ofList name ∧
    c.nameRange = (LineIndex.ofText cs).range start (start + 1 + byteLength name) ∧
    ProseAt cs (start + 1 + byteLength name) body c.prose proseStop ∧
    c.range = (LineIndex.ofText cs).range start proseStop

private theorem proseAt_ofBody? (before body after : List Char) :
    ∃ stop rest, stop ++ rest = before ++ body ++ after ∧
      ProseAt (before ++ body ++ after) (byteLength before) body
        (Prose.ofBody? (Position.start.after before) body).toList (byteLength stop) ∧
      (Prose.ofBody? (Position.start.after before) body).elim (Position.start.after before)
        (·.range.stop) = Position.start.after stop := by
  by_cases hb : Blank body
  · rw [Prose.ofBody?_of_blank _ hb]
    exact ⟨before, body ++ after, (List.append_assoc _ _ _).symm, .blank hb, rfl⟩
  · obtain ⟨lead, text, trail, h, hn⟩ := exists_trimmed_of_not_blank hb
    have hw : before ++ body ++ after = before ++ lead ++ text ++ (trail ++ after) := by
      rw [h.whole]
      simp only [List.append_assoc]
    have hr := LineIndex.range_middle (before ++ lead) text (trail ++ after)
    simp only [byteLength_append, Position.after_append] at hr
    rw [Prose.ofBody?_of_trimmed _ h hn]
    refine ⟨before ++ lead ++ text, trail ++ after, hw.symm, ?_, ?_⟩
    · simp only [byteLength_append]
      refine .block hb h rfl ?_
      rw [hw, hr]
    · simp only [Option.elim_some, Position.after_append]

private theorem sectionAt_ofText (before after : List Char) {name body : List Char}
    (hm : mentionAt? ('@' :: (name ++ body)) = some name) (hs : ∀ b ∈ after.head?, ¬ isNameChar b) :
    SectionAt (before ++ '@' :: (name ++ body) ++ after) (byteLength before)
      (byteLength (before ++ '@' :: (name ++ body)))
      (.ofText (Position.start.after before) ('@' :: (name ++ body))) := by
  have he : before ++ '@' :: (name ++ body) ++ after = before ++ '@' :: name ++ body ++ after := by
    simp only [List.append_assoc, List.cons_append]
  have hq : byteLength before + 1 + byteLength name = byteLength (before ++ '@' :: name) := by
    rw [byteLength_append, byteLength_cons, Nat.add_assoc]
    rfl
  have hn := LineIndex.range_middle before ('@' :: name) (body ++ after)
  rw [← List.append_assoc] at hn
  obtain ⟨stop, rest, hr, hp, hz⟩ := proseAt_ofBody? (before ++ '@' :: name) body after
  rw [Position.after_append] at hp hz
  refine ⟨name, body, byteLength stop, ?_, ?_, ?_, ?_, ?_, ?_⟩
  · refine mentionAt_iff.mpr ⟨before, _, List.append_assoc _ _ _, rfl, ?_⟩
    rw [mentionAt?_append (List.cons_ne_nil _ _) hs, hm]
  · have := slice?_middle (before ++ '@' :: name) body after
    rwa [hq, he, show before ++ '@' :: (name ++ body) = before ++ '@' :: name ++ body by simp]
  · rw [Concept.ofText_eq _ hm]
    rfl
  · rw [Concept.ofText_eq _ hm, hq, he, hn]
    rfl
  · rw [Concept.ofText_eq _ hm, hq, he]
    exact hp
  · rw [Concept.ofText_eq _ hm, he, ← hr, LineIndex.range, LineIndex.positionAt_byteLength]
    rw [hr, List.append_assoc, List.append_assoc, LineIndex.positionAt_byteLength]
    exact congrArg _ hz

private theorem sectionAt_ofTexts (before : List Char) {css : List (List Char)}
    (h : ∀ sec ∈ css, ∃ name, mentionAt? sec = some name) (i m : Nat) (c : Concept)
    (hm : (starts (byteLength before) css)[i]? = some m)
    (hc : (Concept.ofTexts (Position.start.after before) css)[i]? = some c) :
    SectionAt (before ++ css.flatten) m
      ((starts (byteLength before) css)[i + 1]?.getD (byteLength (before ++ css.flatten))) c := by
  induction css generalizing before i with
  | nil => cases hm
  | cons sec css ih =>
    obtain ⟨name, hn⟩ := h sec List.mem_cons_self
    obtain ⟨body, rfl, -, -⟩ := mention_split hn
    have hrest := fun s hs => h s (List.mem_cons_of_mem _ hs)
    have ht := ih (before ++ '@' :: (name ++ body)) hrest
    rw [List.flatten_cons, ← List.append_assoc]
    cases i with
    | zero =>
      cases hm
      cases hc
      have hstop : (starts (byteLength (before ++ '@' :: (name ++ body))) css)[0]?.getD
          (byteLength (before ++ '@' :: (name ++ body) ++ css.flatten)) =
            byteLength (before ++ '@' :: (name ++ body)) := by
        cases css with
        | nil => simp [starts]
        | cons sec css => rfl
      rw [starts, List.getElem?_cons_succ, ← byteLength_append, hstop]
      exact sectionAt_ofText before _ hn (not_isNameChar_head_flatten hrest)
    | succ i =>
      rw [starts, List.getElem?_cons_succ, ← byteLength_append] at hm ⊢
      rw [Concept.ofTexts, List.getElem?_cons_succ, ← Position.after_append] at hc
      exact ht i hm hc

/-- The concepts of a document are the sections of its text: one for each marker, in order, each
read from its marker up to the next marker or the end. -/
theorem parse_reads_sections (source : String) :
    ∃ ms : List Nat, ms.Pairwise (· < ·) ∧ (∀ o, o ∈ ms ↔ MarkerAt source.toList o) ∧
      (Document.parse source).concepts.length = ms.length ∧
      ∀ i m c, ms[i]? = some m → (Document.parse source).concepts[i]? = some c →
        SectionAt source.toList m (ms[i + 1]?.getD (byteLength source.toList)) c := by
  refine ⟨markers source.toList, markers_sorted _, fun o => mem_markers_iff, ?_, ?_⟩
  · rw [Document.parse_concepts, Concept.length_ofTexts, markers, length_starts]
  · intro i m c hm hc
    rw [Document.parse_concepts] at hc
    have h := sectionAt_ofTexts _ (marked_mention source.toList) i m c hm hc
    rwa [preamble_append_marked] at h

/-- A sign within a line, or after an indent, opens no section. -/
example : (Document.parse "x @A\n @B\n@Cat sees @Dog\r\n@Dog").concepts.map
    (fun c => (c.name, c.text)) = [("Cat", "sees @Dog"), ("Dog", "")] := by
  decide

end ConceptMarkup
