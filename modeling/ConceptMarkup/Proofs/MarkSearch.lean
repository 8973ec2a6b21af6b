import Mathlib.Data.List.Infix
import ConceptMarkup.Text.Search

/-! The first place of a mark in a text. A mark that starts with a character it does not have again
is found at the end of a text that does not hold it. Among lines, the end of a line and some first
characters of the next stand exactly where a line after the first starts so. -/
namespace ConceptMarkup.Text

variable {mark m cs : List Char} {c : Char}

private theorem splitOnce?_cons (mark : List Char) (d : Char) (ds : List Char) :
    splitOnce? mark (d :: ds) =
      if mark <+: d :: ds then some ([], (d :: ds).drop mark.length)
      else (splitOnce? mark ds).map fun (before, after) => (d :: before, after) := by
  simp only [splitOnce?, List.isPrefixOf_iff_prefix]

theorem splitOnce?_eq_none_iff : splitOnce? mark cs = none ↔ ¬ mark <:+: cs := by
  induction cs with
  | nil => simp [splitOnce?]
  | cons d ds ih =>
    rw [splitOnce?_cons, List.infix_cons_iff]
    split
    · next h => simp [h]
    · next h => rw [Option.map_eq_none_iff, ih, or_iff_right h]

/-- What is found is cut out. -/
theorem splitOnce?_eq_some {before after : List Char}
    (h : splitOnce? mark cs = some (before, after)) : cs = before ++ (mark ++ after) := by
  induction cs generalizing before with
  | nil =>
    have hm : mark = [] := by
      by_contra hn
      simp [splitOnce?, hn] at h
    subst hm
    simpa [splitOnce?] using h
  | cons d ds ih =>
    rw [splitOnce?_cons] at h
    split at h
    · next hp =>
      obtain ⟨rest, hr⟩ := hp
      rw [← hr, List.drop_left] at h
      obtain ⟨rfl, rfl⟩ := Prod.mk.inj (Option.some.inj h)
      exact hr.symm
    · obtain ⟨⟨bs, as⟩, hs, he⟩ := Option.map_eq_some_iff.mp h
      obtain ⟨rfl, rfl⟩ := Prod.mk.inj he
      rw [ih hs, List.cons_append]

private theorem prefix_append_cons_iff (h : c ∉ m) {line rest : List Char} :
    m <+: line ++ c :: rest ↔ m <+: line := by
  refine ⟨fun hp => ?_, fun hp => hp.trans (List.prefix_append line _)⟩
  rcases List.prefix_or_prefix_of_prefix hp (List.prefix_append line _) with hm | ⟨m', rfl⟩
  · exact hm
  · cases m' with
    | nil => simp
    | cons d ds =>
      rw [List.prefix_append_right_inj, List.cons_prefix_cons] at hp
      simp [hp.1] at h

/-- A mark is found after a text that does not hold it. It starts with a character that it does not
have again, so that it does not start before the end of that text. -/
theorem splitOnce?_append (h : c ∉ m) {before : List Char} (hb : ¬ c :: m <:+: before)
    (after : List Char) :
    splitOnce? (c :: m) (before ++ (c :: m ++ after)) = some (before, after) := by
  induction before with
  | nil =>
    have hp : c :: m <+: c :: (m ++ after) := List.prefix_append (c :: m) after
    have hd : (c :: m ++ after).drop (c :: m).length = after := List.drop_left
    rw [List.nil_append, List.cons_append, splitOnce?_cons, if_pos hp, ← List.cons_append, hd]
  | cons d ds ih =>
    obtain ⟨hp, hi⟩ := not_or.mp (mt List.infix_cons_iff.mpr hb)
    have hn : ¬ c :: m <+: d :: (ds ++ (c :: m ++ after)) := by
      rw [List.cons_append, List.cons_prefix_cons, prefix_append_cons_iff h,
        ← List.cons_prefix_cons]
      exact hp
    rw [List.cons_append, splitOnce?_cons, if_neg hn, ih hi, Option.map_some]

/-- A mark starts at the first end of a line or stands after it. -/
theorem infix_append_cons_iff {line rest : List Char} (h : c ∉ line) :
    c :: m <:+: line ++ c :: rest ↔ m <+: rest ∨ c :: m <:+: rest := by
  induction line with
  | nil => rw [List.nil_append, List.infix_cons_iff, List.cons_prefix_cons, and_iff_right rfl]
  | cons d ds ih =>
    obtain ⟨hd, hds⟩ := not_or.mp (mt List.mem_cons.mpr h)
    rw [List.cons_append, List.infix_cons_iff, List.cons_prefix_cons, ih hds]
    simp [hd]

private theorem prefix_intercalate_iff (h : c ∉ m) (first : List Char) (lines : List (List Char)) :
    m <+: [c].intercalate (first :: lines) ↔ m <+: first := by
  cases lines with
  | nil => rw [List.intercalate_singleton]
  | cons second rest =>
    rw [List.intercalate_cons_cons, List.append_assoc, List.singleton_append,
      prefix_append_cons_iff h]

/-- Among lines a mark stands where a line after the first starts with its rest. -/
theorem infix_intercalate_iff (h : c ∉ m) {lines : List (List Char)}
    (hl : ∀ line ∈ lines, c ∉ line) :
    c :: m <:+: [c].intercalate lines ↔ ∃ line ∈ lines.tail, m <+: line := by
  induction lines with
  | nil => simp
  | cons first lines ih =>
    have hf : c ∉ first := hl first List.mem_cons_self
    have hs : ∀ line ∈ lines, c ∉ line := fun line hm => hl line (List.mem_cons_of_mem _ hm)
    cases lines with
    | nil =>
      have hn : ¬ c :: m <:+: first := fun hi => hf (hi.subset List.mem_cons_self)
      simp [hn]
    | cons second rest =>
      rw [List.intercalate_cons_cons, List.append_assoc, List.singleton_append,
        infix_append_cons_iff hf, prefix_intercalate_iff h, ih hs]
      simp

end ConceptMarkup.Text
