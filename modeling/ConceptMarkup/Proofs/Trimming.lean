import Mathlib.Data.List.DropRight
import ConceptMarkup.Text.Blank
import ConceptMarkup.Text.Lines

/-! Longest runs of characters, and trimming as a cut of a text into three parts: the blanks at its
start, what stands between, and the blanks at its end. Carriage returns at the end of a text are
dropped one at most or all of them. -/
namespace ConceptMarkup.Text

/-- A run is as long as it can be: it ends where the text ends or a character does not belong. -/
theorem takeWhile_append_stop {α : Type} {p : α → Bool} {as bs : List α} (hs : ∀ a ∈ as, p a)
    (ht : ∀ b ∈ bs.head?, ¬ p b) : (as ++ bs).takeWhile p = as := by
  rw [List.takeWhile_append_of_pos hs]
  cases bs with
  | nil => simp
  | cons b bs => rw [List.takeWhile_cons_of_neg (ht b rfl), List.append_nil]

/-- A run that ends within `as`, or at a character that does not belong, is a run of `as`. -/
theorem takeWhile_append_left {α : Type} {p : α → Bool} {as bs : List α}
    (ht : ∀ b ∈ bs.head?, ¬ p b) : (as ++ bs).takeWhile p = as.takeWhile p := by
  induction as with
  | nil =>
    have hn : ∀ a ∈ ([] : List α), p a := by simp
    simpa using takeWhile_append_stop hn ht
  | cons a as ih =>
    rw [List.cons_append, List.takeWhile_cons, List.takeWhile_cons, ih]

def Blank (cs : List Char) : Prop := ∀ c ∈ cs, isBlank c

theorem Blank.nil : Blank [] := by simp [Blank]

theorem blank_append {as bs : List Char} : Blank (as ++ bs) ↔ Blank as ∧ Blank bs := by
  simp only [Blank, List.mem_append, or_imp, forall_and]

/-- The three parts of a text: blanks, a text with a blank at neither end, and blanks. -/
structure Trimmed (cs lead text trail : List Char) : Prop where
  whole : cs = lead ++ text ++ trail
  lead_blank : Blank lead
  trail_blank : Blank trail
  head : ∀ c ∈ text.head?, ¬ isBlank c
  last : ∀ c ∈ text.getLast?, ¬ isBlank c

theorem dropEndWhile_eq_rdropWhile (p : Char → Bool) (cs : List Char) :
    dropEndWhile p cs = cs.rdropWhile p := rfl

private theorem trim_append (lead cs trail : List Char) (hl : Blank lead) (ht : Blank trail) :
    trim (lead ++ cs ++ trail) = trim cs := by
  have hd : (lead ++ cs ++ trail).dropWhile isBlank = (cs ++ trail).dropWhile isBlank := by
    rw [List.append_assoc, List.dropWhile_append_of_pos hl]
  have hr : ∀ ms : List Char, dropEndWhile isBlank (ms ++ trail) = dropEndWhile isBlank ms := by
    intro ms
    rw [dropEndWhile, dropEndWhile, List.reverse_append, List.dropWhile_append_of_pos]
    intro c hc
    exact ht c (List.mem_reverse.mp hc)
  rw [trim, hd, trim, List.dropWhile_append]
  split
  · next he =>
    rw [List.isEmpty_iff.mp he, List.dropWhile_eq_nil_iff.mpr ht]
  · exact hr _

theorem trim_eq_nil_iff {cs : List Char} : trim cs = [] ↔ Blank cs := by
  rw [trim, dropEndWhile_eq_rdropWhile, List.rdropWhile_eq_nil_iff]
  constructor
  · intro h c hc
    rw [← List.takeWhile_append_dropWhile (p := isBlank) (l := cs)] at hc
    rcases List.mem_append.mp hc with ht | hd
    · exact List.mem_takeWhile_imp ht
    · exact h c hd
  · intro h c hc
    exact h c ((List.dropWhile_sublist _).mem hc)

private theorem exists_trimmed (cs : List Char) :
    ∃ trail, Trimmed cs (cs.takeWhile isBlank) (trim cs) trail := by
  have hs := List.rdropWhile_append_rtakeWhile (p := isBlank) (l := cs.dropWhile isBlank)
  refine ⟨(cs.dropWhile isBlank).rtakeWhile isBlank, ?_, ?_, ?_, ?_, ?_⟩
  · rw [trim, dropEndWhile_eq_rdropWhile, List.append_assoc, hs, List.takeWhile_append_dropWhile]
  · intro c hc
    exact List.mem_takeWhile_imp hc
  · intro c hc
    exact List.mem_rtakeWhile_imp hc
  · intro c hc
    have hd : (cs.dropWhile isBlank).head? = some c := by
      rw [← hs, ← dropEndWhile_eq_rdropWhile, ← trim, List.head?_append, hc, Option.some_or]
    have hn := List.head?_dropWhile_not isBlank cs
    rw [hd] at hn
    simpa using hn
  · intro c hc
    obtain ⟨hn, rfl⟩ := List.mem_getLast?_eq_getLast hc
    exact List.rdropWhile_last_not isBlank _ hn

theorem exists_trimmed_of_not_blank {cs : List Char} (h : ¬ Blank cs) :
    ∃ lead text trail, Trimmed cs lead text trail ∧ text ≠ [] := by
  obtain ⟨trail, ht⟩ := exists_trimmed cs
  exact ⟨_, _, trail, ht, fun he => h (trim_eq_nil_iff.mp he)⟩

/-- Blanks around a text join the blanks at its two ends. -/
theorem Trimmed.append {cs lead text trail before after : List Char}
    (h : Trimmed cs lead text trail) (hb : Blank before) (ha : Blank after) :
    Trimmed (before ++ cs ++ after) (before ++ lead) text (trail ++ after) :=
  { whole := by
      rw [h.whole]
      simp only [List.append_assoc]
    lead_blank := blank_append.mpr ⟨hb, h.lead_blank⟩
    trail_blank := blank_append.mpr ⟨h.trail_blank, ha⟩
    head := h.head
    last := h.last }

/-- The three parts of a text that is not blank are known. -/
theorem Trimmed.eq_of_ne_nil {cs lead text trail : List Char} (h : Trimmed cs lead text trail)
    (hn : text ≠ []) : lead = cs.takeWhile isBlank ∧ text = trim cs := by
  obtain ⟨t, ts, rfl⟩ := List.exists_cons_of_ne_nil hn
  have ht : trim (t :: ts) = t :: ts := by
    rw [trim, List.dropWhile_cons_of_neg (h.head t rfl), dropEndWhile_eq_rdropWhile,
      List.rdropWhile_eq_self_iff]
    intro hne
    exact h.last _ (List.getLast?_eq_some_getLast hne)
  constructor
  · rw [h.whole, List.append_assoc, takeWhile_append_stop h.lead_blank]
    intro c hc
    exact h.head c hc
  · rw [h.whole, trim_append _ _ _ h.lead_blank h.trail_blank, ht]

theorem dropReturn_concat (line : List Char) : dropReturn (line ++ ['\r']) = line := by
  simp [dropReturn]

theorem dropReturn_of_not_mem {line : List Char} (h : '\r' ∉ line) : dropReturn line = line :=
  if_neg fun hl => h (List.mem_of_getLast? hl)

theorem dropEndWhile_return_eq_self_iff (cs : List Char) :
    dropEndWhile (· = '\r') cs = cs ↔ ¬ ['\r'] <:+ cs := by
  rw [dropEndWhile_eq_rdropWhile, List.rdropWhile_eq_self_iff,
    List.singleton_suffix_iff_getLast?_eq_some]
  constructor
  · intro h hg
    have hn : cs ≠ [] := by
      rintro rfl
      cases hg
    exact h hn (decide_eq_true ((List.getLast_eq_iff_getLast?_eq_some hn).mpr hg))
  · intro h hn hp
    exact h ((List.getLast_eq_iff_getLast?_eq_some hn).mp (of_decide_eq_true hp))

/-- Of the carriage returns at the end all are dropped. They are at most one unless two stand there.
-/
theorem dropEndWhile_return_eq_iff (cs : List Char) :
    dropEndWhile (· = '\r') cs = dropReturn cs ↔ ¬ ['\r', '\r'] <:+ cs := by
  cases cs using List.reverseRecOn with
  | nil => simp [dropReturn, dropEndWhile]
  | append_singleton as a =>
    have hs : ['\r', '\r'] <:+ as ++ [a] ↔ a = '\r' ∧ ['\r'] <:+ as := by
      rw [← List.reverse_prefix, ← List.reverse_prefix, List.reverse_append]
      exact List.cons_prefix_cons.trans (and_congr_left' eq_comm)
    by_cases ha : a = '\r'
    · subst ha
      have hp : dropEndWhile (· = '\r') (as ++ ['\r']) = dropEndWhile (· = '\r') as :=
        List.rdropWhile_concat_pos _ _ _ (by simp)
      rw [hs, dropReturn_concat, hp, dropEndWhile_return_eq_self_iff, and_iff_right rfl]
    · have hd : dropReturn (as ++ [a]) = as ++ [a] := by simp [dropReturn, ha]
      have hn : dropEndWhile (· = '\r') (as ++ [a]) = as ++ [a] :=
        List.rdropWhile_concat_neg _ _ _ (by simpa using ha)
      rw [hs, hd, hn]
      exact iff_of_true rfl fun h => ha h.1

theorem length_dropReturn_le (cs : List Char) : cs.length ≤ (dropReturn cs).length + 1 := by
  rw [dropReturn]
  split
  · rw [List.length_dropLast]
    omega
  · exact Nat.le_succ _

end ConceptMarkup.Text
