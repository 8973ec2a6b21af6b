import ConceptMarkup.Parse
import ConceptMarkup.Proofs.LinePositions

/-! The mentions of a text: where they stand, how far their names run, and that collecting the
references of a text finds each of them once, in order. -/
namespace ConceptMarkup
open Text

/-- At byte offset `o` stands an at sign directly followed by an ASCII capital, and `name` is the
longest run of name characters after the sign. -/
def MentionAt (cs : List Char) (o : Nat) (name : List Char) : Prop :=
  ∃ before after, cs = before ++ '@' :: after ∧ byteLength before = o ∧
    (∃ c ∈ after.head?, c.isUpper) ∧ name = after.takeWhile isNameChar

/-- A line begins at byte offset `o`. -/
def LineStartAt (cs : List Char) (o : Nat) : Prop :=
  ∃ before after, cs = before ++ after ∧ byteLength before = o ∧
    (before = [] ∨ before.getLast? = some '\n')

/-- A line begins at byte offset `o`, and it begins with a mention. -/
def MarkerAt (cs : List Char) (o : Nat) : Prop :=
  LineStartAt cs o ∧ ∃ name, MentionAt cs o name

theorem isNameChar_of_isUpper {c : Char} (h : c.isUpper) : isNameChar c := by
  change (c.isUpper || c.isLower || c.isDigit || c = '_') = true
  rw [h]
  rfl

theorem not_isNameChar_at : ¬ isNameChar '@' := by decide

private theorem toNat_of_isNameChar {c : Char} (h : isNameChar c) :
    48 ≤ c.toNat ∧ c.toNat ≤ 57 ∨ 65 ≤ c.toNat ∧ c.toNat ≤ 90 ∨ c.toNat = 95 ∨
      97 ≤ c.toNat ∧ c.toNat ≤ 122 := by
  have hb : isNameChar c = (decide (65 ≤ c.val ∧ c.val ≤ 90) ||
      decide (97 ≤ c.val) && decide (c.val ≤ 122) || decide (48 ≤ c.val) && decide (c.val ≤ 57) ||
      decide (c = '_')) := rfl
  rw [hb] at h
  simp only [Bool.or_eq_true, Bool.and_eq_true, decide_eq_true_eq, UInt32.le_iff_toNat_le] at h
  change (((65 ≤ c.toNat ∧ c.toNat ≤ 90) ∨ (97 ≤ c.toNat ∧ c.toNat ≤ 122)) ∨
    (48 ≤ c.toNat ∧ c.toNat ≤ 57)) ∨ c = '_' at h
  rcases h with h | rfl
  · omega
  · decide

theorem not_isNameChar_of_isBlank {c : Char} (h : isBlank c) : ¬ isNameChar c := by
  intro hn
  have := toNat_of_isNameChar hn
  simp only [isBlank, Bool.or_eq_true, Bool.and_eq_true, decide_eq_true_eq, beq_iff_eq] at h
  omega

theorem mentionAt?_eq_some_iff {cs name : List Char} :
    mentionAt? cs = some name ↔ ∃ after, cs = '@' :: after ∧ (∃ c ∈ after.head?, c.isUpper) ∧
      name = after.takeWhile isNameChar := by
  constructor
  · intro h
    unfold mentionAt? at h
    split at h
    · next c cs =>
      split at h
      · next hc =>
        refine ⟨c :: cs, rfl, ⟨c, rfl, hc⟩, ?_⟩
        rw [List.takeWhile_cons_of_pos (isNameChar_of_isUpper hc)]
        exact (Option.some.inj h).symm
      · cases h
    · cases h
  · rintro ⟨after, rfl, ⟨c, hc, hu⟩, rfl⟩
    cases after with
    | nil => cases hc
    | cons d ds =>
      cases hc
      simp [mentionAt?, hu, isNameChar_of_isUpper hu]

/-- A mention is its sign, its name and what cannot continue the name. -/
theorem mention_split {cs name : List Char} (h : mentionAt? cs = some name) :
    ∃ rest, cs = '@' :: (name ++ rest) ∧ (∀ c ∈ name, isNameChar c) ∧
      (∀ c ∈ rest.head?, ¬ isNameChar c) := by
  obtain ⟨after, rfl, -, rfl⟩ := mentionAt?_eq_some_iff.mp h
  refine ⟨after.dropWhile isNameChar, by rw [List.takeWhile_append_dropWhile], ?_, ?_⟩
  · intro c hc
    exact List.mem_takeWhile_imp hc
  · intro c hc
    have hn := List.head?_dropWhile_not isNameChar after
    rw [hc] at hn
    simpa using hn

theorem mentionAt_iff {cs : List Char} {o : Nat} {name : List Char} :
    MentionAt cs o name ↔ ∃ before rest, cs = before ++ rest ∧ byteLength before = o ∧
      mentionAt? rest = some name := by
  constructor
  · rintro ⟨before, after, rfl, rfl, hu, rfl⟩
    exact ⟨before, _, rfl, rfl, mentionAt?_eq_some_iff.mpr ⟨after, rfl, hu, rfl⟩⟩
  · rintro ⟨before, rest, rfl, rfl, h⟩
    obtain ⟨after, rfl, hu, rfl⟩ := mentionAt?_eq_some_iff.mp h
    exact ⟨before, after, rfl, rfl, hu, rfl⟩

theorem MentionAt.unique {cs : List Char} {o : Nat} {name name' : List Char}
    (h : MentionAt cs o name) (h' : MentionAt cs o name') : name = name' := by
  obtain ⟨before, after, he, ho, -, rfl⟩ := h
  obtain ⟨before', after', he', ho', -, rfl⟩ := h'
  obtain ⟨-, ha⟩ := append_inj_of_byteLength (he.symm.trans he') (ho.trans ho'.symm)
  rw [(List.cons.inj ha).2]

/-- What follows a text has no part in the mention at its start, unless it continues a name. -/
theorem mentionAt?_append {as bs : List Char} (ha : as ≠ []) (hb : ∀ b ∈ bs.head?, ¬ isNameChar b) :
    mentionAt? (as ++ bs) = mentionAt? as := by
  obtain ⟨a, as, rfl⟩ := List.exists_cons_of_ne_nil ha
  by_cases hs : a = '@'
  · subst hs
    cases as with
    | nil =>
      cases bs with
      | nil => rfl
      | cons b bs =>
        have hu : ¬ b.isUpper := fun hu => hb b rfl (isNameChar_of_isUpper hu)
        simp [mentionAt?, hu]
    | cons c cs => simp [mentionAt?, takeWhile_append_left hb]
  · simp [mentionAt?, hs]

theorem mentionAt?_cons_of_ne {c : Char} {cs : List Char} (h : c ≠ '@') :
    mentionAt? (c :: cs) = none := by
  simp [mentionAt?, h]

namespace Reference

def ofMention (p : Position) (name : List Char) : Reference :=
  ⟨String.ofList name, p, p.after ('@' :: name)⟩

theorem allIn_cons (p : Position) (c : Char) (cs : List Char) :
    allIn p (c :: cs) =
      (mentionAt? (c :: cs)).toList.map (ofMention p) ++ allIn (p.advance c) cs := by
  rw [allIn]
  cases mentionAt? (c :: cs) <;> rfl

theorem allIn_append (p : Position) {as bs : List Char} (hb : ∀ b ∈ bs.head?, ¬ isNameChar b) :
    allIn p (as ++ bs) = allIn p as ++ allIn (p.after as) bs := by
  induction as generalizing p with
  | nil => rfl
  | cons a as ih =>
    rw [List.cons_append, allIn_cons, allIn_cons, ih, ← List.cons_append,
      mentionAt?_append (List.cons_ne_nil a as) hb, List.append_assoc, Position.after_cons]

private theorem allIn_append_of_not_mem (p : Position) {as bs : List Char} (ha : '@' ∉ as) :
    allIn p (as ++ bs) = allIn (p.after as) bs := by
  induction as generalizing p with
  | nil => rfl
  | cons a as ih =>
    have hne : a ≠ '@' := fun he => ha (he ▸ List.mem_cons_self)
    rw [List.cons_append, allIn_cons, mentionAt?_cons_of_ne hne,
      ih _ fun hm => ha (List.mem_cons_of_mem _ hm)]
    rfl

theorem allIn_of_not_mem (p : Position) {cs : List Char} (h : '@' ∉ cs) : allIn p cs = [] := by
  have hn : allIn p (cs ++ []) = [] := allIn_append_of_not_mem p h
  rwa [List.append_nil] at hn

theorem not_mem_of_blank {cs : List Char} (h : Blank cs) : '@' ∉ cs := fun hm =>
  absurd (h _ hm) (by decide)

/-- Trimming takes no mention away and cuts no name short. -/
theorem allIn_trimmed (p : Position) {cs lead text trail : List Char}
    (h : Trimmed cs lead text trail) : allIn p cs = allIn (p.after lead) text := by
  rw [h.whole, allIn_append, allIn_append_of_not_mem p (not_mem_of_blank h.lead_blank),
    allIn_of_not_mem _ (not_mem_of_blank h.trail_blank), List.append_nil]
  intro b hb
  exact not_isNameChar_of_isBlank (h.trail_blank b (List.mem_of_head? hb))

/-- The references in a text that begins with a mention: that mention, and those after its name. -/
theorem allIn_mention (p : Position) {name rest : List Char}
    (h : mentionAt? ('@' :: (name ++ rest)) = some name) (hn : ∀ c ∈ name, isNameChar c) :
    allIn p ('@' :: (name ++ rest)) =
      ofMention p name :: allIn (p.after ('@' :: name)) rest := by
  rw [allIn_cons, h, allIn_append_of_not_mem]
  · rfl
  · exact fun hm => not_isNameChar_at (hn _ hm)

theorem mem_allIn_iff {p : Position} {cs : List Char} {r : Reference} :
    r ∈ allIn p cs ↔ ∃ before rest name, cs = before ++ rest ∧ mentionAt? rest = some name ∧
      r = ofMention (p.after before) name := by
  induction cs generalizing p with
  | nil =>
    constructor
    · intro h
      cases h
    · rintro ⟨before, rest, name, he, h, -⟩
      rw [(List.append_eq_nil_iff.mp he.symm).2] at h
      cases h
  | cons c cs ih =>
    rw [allIn_cons, List.mem_append, List.mem_map, ih]
    constructor
    · rintro (⟨name, hn, rfl⟩ | ⟨before, rest, name, rfl, hn, rfl⟩)
      · exact ⟨[], c :: cs, name, rfl, by simpa using hn, rfl⟩
      · exact ⟨c :: before, rest, name, rfl, hn, rfl⟩
    · rintro ⟨before, rest, name, he, hn, rfl⟩
      cases before with
      | nil =>
        rw [List.nil_append] at he
        exact .inl ⟨name, by simpa [he] using hn, rfl⟩
      | cons b before =>
        obtain ⟨rfl, rfl⟩ := List.cons.inj he
        exact .inr ⟨before, rest, name, rfl, hn, rfl⟩

theorem ofMention_offsets (p : Position) (name : List Char) :
    (ofMention p name).range.start.offset = p.offset ∧
      (ofMention p name).range.stop.offset = p.offset + (1 + byteLength name) := by
  constructor
  · rfl
  · rw [ofMention, Position.offset_after]
    rfl

/-- References stand in order, and none begins before the one before it has ended. -/
theorem allIn_ordered (p : Position) (cs : List Char) :
    (allIn p cs).Pairwise fun r r' => r.range.stop.offset ≤ r'.range.start.offset := by
  induction cs generalizing p with
  | nil => exact .nil
  | cons c cs ih =>
    cases hm : mentionAt? (c :: cs) with
    | none => simpa [allIn_cons, hm] using ih (p.advance c)
    | some name =>
      obtain ⟨rest, he, hn, -⟩ := mention_split hm
      rw [he] at hm ⊢
      rw [allIn_mention p hm hn, List.pairwise_cons]
      constructor
      · intro r hr
        obtain ⟨before, _, _, -, -, rfl⟩ := mem_allIn_iff.mp hr
        rw [(ofMention_offsets _ _).1, Position.offset_after _ before]
        exact Nat.le_add_right _ _
      · have hcs : cs = name ++ rest := (List.cons.inj he).2
        have := ih (p.advance '@')
        rwa [hcs, allIn_append_of_not_mem] at this
        exact fun ha => not_isNameChar_at (hn _ ha)

end Reference

def referenceAt (cs : List Char) (o : Nat) (name : List Char) : Reference :=
  ⟨String.ofList name, (LineIndex.ofText cs).range o (o + 1 + byteLength name)⟩

private theorem referenceAt_byteLength (before name rest : List Char) :
    referenceAt (before ++ '@' :: (name ++ rest)) (byteLength before) name =
      .ofMention (Position.start.after before) name := by
  have h := LineIndex.range_middle before ('@' :: name) rest
  rw [referenceAt, Reference.ofMention, ← h, byteLength_append, byteLength_cons,
    show '@'.utf8Size = 1 from rfl, Nat.add_assoc, List.append_assoc, List.cons_append]

/-- The mentions of a text are the references collected from the whole of it. -/
theorem mem_allIn_start_iff {cs : List Char} {r : Reference} :
    r ∈ Reference.allIn .start cs ↔ ∃ o name, MentionAt cs o name ∧ r = referenceAt cs o name := by
  rw [Reference.mem_allIn_iff]
  constructor
  · rintro ⟨before, rest, name, rfl, hm, rfl⟩
    obtain ⟨tail, rfl, -, -⟩ := mention_split hm
    exact ⟨byteLength before, name, mentionAt_iff.mpr ⟨before, _, rfl, rfl, hm⟩,
      (referenceAt_byteLength before name tail).symm⟩
  · rintro ⟨o, name, h, rfl⟩
    obtain ⟨before, rest, rfl, rfl, hm⟩ := mentionAt_iff.mp h
    obtain ⟨tail, rfl, -, -⟩ := mention_split hm
    exact ⟨before, _, name, rfl, hm, referenceAt_byteLength before name tail⟩

/-- The reference for a mention begins at its sign and ends after its name. -/
theorem referenceAt_offsets {cs : List Char} {o : Nat} {name : List Char}
    (h : MentionAt cs o name) : (referenceAt cs o name).range.start.offset = o ∧
      (referenceAt cs o name).range.stop.offset = o + (1 + byteLength name) := by
  obtain ⟨before, rest, rfl, rfl, hm⟩ := mentionAt_iff.mp h
  obtain ⟨tail, rfl, -, -⟩ := mention_split hm
  rw [referenceAt_byteLength]
  simpa [Position.start] using Reference.ofMention_offsets (Position.start.after before) name

end ConceptMarkup
