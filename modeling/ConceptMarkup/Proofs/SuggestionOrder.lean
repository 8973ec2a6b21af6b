import Mathlib.Data.List.Infix
import Mathlib.Data.List.Perm.Subperm
import ConceptMarkup.Proofs.Trimming
import ConceptMarkup.Suggestion

/-! How suggestions depend on their bounds. Candidates at one distance keep their order, so that
leaving some out does not reorder the others, and tighter bounds cut the offer short. -/
namespace ConceptMarkup

section KeyedSort
variable {α : Type} (key : α → Nat)

private theorem key_trans (a b c : α) (hab : decide (key a ≤ key b) = true)
    (hbc : decide (key b ≤ key c) = true) : decide (key a ≤ key c) = true := by
  rw [decide_eq_true_eq] at *
  exact hab.trans hbc

private theorem key_total (a b : α) :
    (decide (key a ≤ key b) || decide (key b ≤ key a)) = true := by
  rw [Bool.or_eq_true, decide_eq_true_eq, decide_eq_true_eq]
  exact Nat.le_total _ _

private theorem pairwise_mergeSort_key (l : List α) :
    (l.mergeSort fun a b => key a ≤ key b).Pairwise fun a b => key a ≤ key b := by
  simpa using List.pairwise_mergeSort (key_trans key) (key_total key) l

/-- Sorting by a key keeps the order in which elements of one key stood. -/
theorem pairwise_mergeSort_stable {r : α → α → Prop} {l : List α} (h : l.Pairwise r) :
    (l.mergeSort fun a b => key a ≤ key b).Pairwise
      fun a b => key a < key b ∨ key a = key b ∧ r a b := by
  induction h with
  | nil => simp
  | @cons a l ha hl ih =>
    obtain ⟨l₁, l₂, hal, hs, hlt⟩ := List.mergeSort_cons (key_trans key) (key_total key) a l
    have hsorted := pairwise_mergeSort_key key (a :: l)
    have hmem : ∀ b ∈ l₂, b ∈ l := by
      intro b hb
      rw [← List.mem_mergeSort, hs]
      exact List.mem_append_right l₁ hb
    rw [hal] at hsorted ⊢
    rw [hs] at ih
    obtain ⟨h₁, h₂, h₁₂⟩ := List.pairwise_append.mp ih
    refine List.pairwise_append.mpr ⟨h₁, List.pairwise_cons.mpr ⟨?_, h₂⟩, ?_⟩
    · intro b hb
      have hle := (List.pairwise_cons.mp (List.pairwise_append.mp hsorted).2.1).1 b hb
      rcases Nat.lt_or_eq_of_le hle with hlt | he
      · exact .inl hlt
      · exact .inr ⟨he, ha b (hmem b hb)⟩
    · intro b hb c hc
      rcases List.mem_cons.mp hc with rfl | hc
      · exact .inl (by simpa using hlt b hb)
      · exact h₁₂ b hb c hc

private theorem append_inj_of_key {n : Nat} {as bs as' bs' : List α} (h : as ++ bs = as' ++ bs')
    (hs : ∀ a ∈ as, key a < n) (hs' : ∀ a ∈ as', key a < n) (ht : ∀ b ∈ bs, n ≤ key b)
    (ht' : ∀ b ∈ bs', n ≤ key b) : as = as' ∧ bs = bs' := by
  have hrun : ∀ {l r : List α}, (∀ a ∈ l, key a < n) → (∀ b ∈ r, n ≤ key b) →
      (l ++ r).takeWhile (key · < n) = l := by
    intro l r hl hr
    apply Text.takeWhile_append_stop
    · intro a ha
      exact decide_eq_true (hl a ha)
    · intro b hb
      simpa using hr b (List.mem_of_mem_head? hb)
  have he : as = as' := by rw [← hrun hs ht, h, hrun hs' ht']
  subst he
  exact ⟨rfl, List.append_cancel_left h⟩

private theorem filter_mergeSort_key (p : α → Bool) (l : List α) :
    ((l.filter p).mergeSort fun a b => key a ≤ key b) =
      (l.mergeSort fun a b => key a ≤ key b).filter p := by
  induction l with
  | nil => simp
  | cons a l ih =>
    obtain ⟨l₁, l₂, hal, hl, hlt⟩ := List.mergeSort_cons (key_trans key) (key_total key) a l
    have hsorted := pairwise_mergeSort_key key (a :: l)
    rw [hl, List.filter_append] at ih
    rw [hal] at hsorted
    rw [hal, List.filter_append]
    cases ha : p a with
    | false =>
      have hn : ¬ p a = true := by simp [ha]
      rw [List.filter_cons_of_neg hn, List.filter_cons_of_neg hn, ih]
    | true =>
      obtain ⟨m₁, m₂, ham, hm, hmt⟩ :=
        List.mergeSort_cons (key_trans key) (key_total key) a (l.filter p)
      have hsorted' := pairwise_mergeSort_key key (a :: l.filter p)
      rw [ham] at hsorted'
      rw [hm] at ih
      have hge : ∀ b ∈ l₂.filter p, key a ≤ key b := by
        intro b hb
        have ht := (List.pairwise_append.mp hsorted).2.1
        exact (List.pairwise_cons.mp ht).1 b (List.mem_filter.mp hb).1
      have hge' : ∀ b ∈ m₂, key a ≤ key b :=
        (List.pairwise_cons.mp (List.pairwise_append.mp hsorted').2.1).1
      have hlt' : ∀ b ∈ l₁.filter p, key b < key a := by
        intro b hb
        simpa using hlt b (List.mem_filter.mp hb).1
      have hmt' : ∀ b ∈ m₁, key b < key a := by
        intro b hb
        simpa using hmt b hb
      obtain ⟨rfl, rfl⟩ := append_inj_of_key key ih hmt' hlt' hge' hge
      rw [List.filter_cons_of_pos ha, List.filter_cons_of_pos ha, ham]

private theorem filter_le_isPrefix {l : List α} (h : l.Pairwise fun a b => key a ≤ key b)
    (n : Nat) : l.filter (key · ≤ n) <+: l := by
  induction h with
  | nil => exact List.prefix_rfl
  | @cons a l ha hl ih =>
    by_cases hn : key a ≤ n
    · have he : (a :: l).filter (key · ≤ n) = a :: l.filter (key · ≤ n) := by
        simp [hn]
      rw [he, List.prefix_cons_inj]
      exact ih
    · have he : (a :: l).filter (key · ≤ n) = [] := by
        apply List.filter_eq_nil_iff.mpr
        intro b hb
        rw [decide_eq_true_eq]
        rcases List.mem_cons.mp hb with rfl | hb
        · exact hn
        · exact fun hbn => hn ((ha b hb).trans hbn)
      rw [he]
      exact List.nil_prefix

private theorem map_mergeSort_keyed (bound : Nat) (l : List α) :
    (((l.map fun a => (key a, a)).filter (·.1 ≤ bound)).mergeSort fun a b => a.1 ≤ b.1).map (·.2) =
      (l.filter (key · ≤ bound)).mergeSort fun a b => key a ≤ key b := by
  have hs : ((l.filter (key · ≤ bound)).mergeSort fun a b => key a ≤ key b).map
      (fun a => (key a, a)) = ((l.map fun a => (key a, a)).filter (·.1 ≤ bound)).mergeSort
        fun a b => a.1 ≤ b.1 := by
    rw [List.filter_map]
    exact List.map_mergeSort fun a _ b _ => rfl
  rw [← hs, List.map_map]
  exact List.map_id _

end KeyedSort

/-- What is offered is a beginning of the close candidates, sorted by distance. -/
theorem suggest_eq_take (name : String) (candidates : List String) (options : Options) :
    suggest name candidates options =
      ((candidates.filter (nameDistance name · ≤ suggestionBound name options)).mergeSort
        fun a b => nameDistance name a ≤ nameDistance name b).take options.maxSuggestions := by
  rw [← map_mergeSort_keyed, ← List.map_take]
  rfl

/-- Suggestions are candidates, none offered more often than it stands among them. -/
theorem suggest_subperm (name : String) (candidates : List String) (options : Options) :
    (suggest name candidates options).Subperm candidates := by
  rw [suggest_eq_take]
  have hsort := List.mergeSort_perm
    (candidates.filter (nameDistance name · ≤ suggestionBound name options))
    fun a b => nameDistance name a ≤ nameDistance name b
  exact (List.take_sublist _ _).subperm.trans (hsort.subperm.trans List.filter_sublist.subperm)

/-- Tighter bounds cut the suggestions short and change none before the cut. -/
theorem suggest_isPrefix {o o' : Options} (hm : o.maxSuggestions ≤ o'.maxSuggestions)
    (hd : o.maxSuggestionDistance ≤ o'.maxSuggestionDistance) (name : String)
    (candidates : List String) : suggest name candidates o <+: suggest name candidates o' := by
  let key := nameDistance name
  have hb : suggestionBound name o ≤ suggestionBound name o' := by
    rw [suggestionBound, suggestionBound]
    omega
  let wide := candidates.filter (key · ≤ suggestionBound name o')
  let sorted := wide.mergeSort fun a b => key a ≤ key b
  have hclose : candidates.filter (key · ≤ suggestionBound name o) =
      wide.filter (key · ≤ suggestionBound name o) := by
    rw [List.filter_filter]
    apply List.filter_congr
    intro c _
    grind
  have hcut : ((candidates.filter (key · ≤ suggestionBound name o)).mergeSort
      fun a b => key a ≤ key b) <+: sorted := by
    rw [hclose, filter_mergeSort_key key]
    exact filter_le_isPrefix key (pairwise_mergeSort_key key wide) _
  have htake : sorted.take o.maxSuggestions <+: sorted.take o'.maxSuggestions :=
    List.take_prefix_take_left hm
  rw [suggest_eq_take, suggest_eq_take]
  exact (hcut.take o.maxSuggestions).trans htake

end ConceptMarkup
