import Mathlib.Data.List.Induction
import ConceptMarkup.Expectation.Suite

/-! Filters that select categories one after another. A filter is warned of if it selects nothing
that those before it have not selected, whether or not it selects anything. -/
namespace ConceptMarkup
namespace Category

/-- Whether a filter names a category or one above it. -/
def Covers (filter name : String) : Prop :=
  name = wanted filter ∨ ∃ below, name = wanted filter ++ "/" ++ below

private theorem selectedBy_iff {filter name : String} :
    selectedBy filter name ↔ Covers filter name := by
  have hs : ∀ below : List Char, name = wanted filter ++ "/" ++ .ofList below ↔
      (wanted filter).toList ++ ['/'] ++ below = name.toList := by
    intro below
    simp [← String.toList_inj, eq_comm]
  have hb : (wanted filter).toList ++ ['/'] <+: name.toList ↔
      ∃ below, name = wanted filter ++ "/" ++ below := by
    constructor
    · rintro ⟨below, h⟩
      exact ⟨.ofList below, (hs below).mpr h⟩
    · rintro ⟨below, h⟩
      rw [← String.ofList_toList (s := below)] at h
      exact ⟨below.toList, (hs below.toList).mp h⟩
  rw [selectedBy, Bool.or_eq_true, decide_eq_true_eq, List.isPrefixOf_iff_prefix, hb, Covers]

instance (filter name : String) : Decidable (Covers filter name) :=
  decidable_of_iff _ selectedBy_iff

/-- Whether a filter covers no category at all. -/
def Misses (names : List String) (filter : String) : Prop := ∀ name ∈ names, ¬ Covers filter name

/-- Whether a filter covers no category besides those that the filters before it cover. -/
def AddsNothing (names before : List String) (filter : String) : Prop :=
  ∀ name ∈ names, Covers filter name → ∃ f ∈ before, Covers f name

instance (names : List String) : DecidablePred (Misses names) :=
  fun _ => inferInstanceAs (Decidable (∀ _ ∈ _, _))

instance (names before : List String) : DecidablePred (AddsNothing names before) :=
  fun _ => inferInstanceAs (Decidable (∀ _ ∈ _, _))

private theorem Misses.addsNothing {names : List String} {filter : String} (h : Misses names filter)
    (before : List String) : AddsNothing names before filter :=
  fun name hn hc => absurd hc (h name hn)

def added (names chosen : List String) (filter : String) : List String :=
  names.filter fun name => selectedBy filter name && !chosen.contains name

private theorem choose_cons (names chosen : List String) (filter : String) (filters : List String) :
    choose names chosen (filter :: filters) =
      ((choose names (chosen ++ added names chosen filter) filters).1,
        if (added names chosen filter).isEmpty then
          filter :: (choose names (chosen ++ added names chosen filter) filters).2
        else (choose names (chosen ++ added names chosen filter) filters).2) := rfl

private theorem choose_append (names chosen filters others : List String) :
    choose names chosen (filters ++ others) =
      ((choose names (choose names chosen filters).1 others).1,
        (choose names chosen filters).2 ++
          (choose names (choose names chosen filters).1 others).2) := by
  induction filters generalizing chosen with
  | nil => rfl
  | cons filter filters ih =>
    rw [List.cons_append, choose_cons, ih, choose_cons]
    split
    · rfl
    · rfl

private theorem mem_added_iff {names chosen : List String} {filter name : String} :
    name ∈ added names chosen filter ↔ name ∈ names ∧ Covers filter name ∧ name ∉ chosen := by
  rw [added, List.mem_filter, Bool.and_eq_true, selectedBy_iff, List.contains_eq_mem,
    Bool.not_eq_true', decide_eq_false_iff_not]

/-- What has been chosen after some filters. -/
theorem mem_choose_iff {names chosen filters : List String} {name : String} :
    name ∈ (choose names chosen filters).1 ↔
      name ∈ chosen ∨ name ∈ names ∧ ∃ f ∈ filters, Covers f name := by
  induction filters generalizing chosen with
  | nil => simp [choose]
  | cons filter filters ih =>
    rw [choose_cons, ih, List.mem_append, mem_added_iff]
    simp only [List.mem_cons, exists_eq_or_imp]
    by_cases hc : name ∈ chosen
    · simp only [hc, true_or]
    · simp only [hc, false_or, not_false_eq_true, and_true]
      exact and_or_left.symm

private theorem choose_concat (names filters : List String) (filter : String) :
    (choose names [] (filters ++ [filter])).2 = (choose names [] filters).2 ++
      if AddsNothing names filters filter then [filter] else [] := by
  have hnew : (added names (choose names [] filters).1 filter).isEmpty ↔
      AddsNothing names filters filter := by
    rw [List.isEmpty_iff, List.eq_nil_iff_forall_not_mem]
    apply forall_congr'
    intro name
    rw [mem_added_iff, mem_choose_iff, or_iff_right List.not_mem_nil]
    constructor
    · intro h hn hc
      by_contra hf
      exact h ⟨hn, hc, fun hm => hf hm.2⟩
    · rintro h ⟨hn, hc, hm⟩
      exact hm ⟨hn, h hn hc⟩
  rw [choose_append, choose_cons]
  simp only [hnew]
  rfl

private theorem choose_warns (names filters : List String) :
    (choose names [] filters).2 = (filters.zipIdx.filter fun f =>
      AddsNothing names (filters.take f.2) f.1).map (·.1) := by
  induction filters using List.reverseRecOn with
  | nil => rfl
  | append_singleton filters filter ih =>
    have hold : (filters.zipIdx.filter fun f => AddsNothing names ((filters ++ [filter]).take f.2)
        f.1) = filters.zipIdx.filter fun f => AddsNothing names (filters.take f.2) f.1 := by
      apply List.filter_congr
      intro f hf
      have hlt := (List.mem_zipIdx hf).2.1
      rw [Nat.zero_add] at hlt
      rw [List.take_append_of_le_length (Nat.le_of_lt hlt)]
    rw [choose_concat, ih, List.zipIdx_append, List.filter_append, List.map_append, hold]
    congr 1
    rw [Nat.zero_add, List.zipIdx_singleton, List.filter_cons, List.take_left]
    by_cases h : AddsNothing names filters filter
    · simp [h]
    · simp [h]

private theorem select_snd (all : List Category) (filters : List String) :
    (select all filters).2 = (choose (all.map (·.name)) [] filters).2 := by
  rw [select]
  split
  · next h =>
    rw [List.isEmpty_iff.mp h]
    rfl
  · rfl

private theorem warned_eq_filter_iff (names filters : List String) :
    (filters.zipIdx.filter fun f => AddsNothing names (filters.take f.2) f.1).map (·.1) =
        filters.filter (Misses names ·) ↔
      ∀ f ∈ filters.zipIdx, AddsNothing names (filters.take f.2) f.1 → Misses names f.1 := by
  let warned := filters.zipIdx.filter fun f => AddsNothing names (filters.take f.2) f.1
  have hm : filters.filter (Misses names ·) = (warned.filter (Misses names ·.1)).map (·.1) := by
    have hz : warned.filter (Misses names ·.1) = filters.zipIdx.filter (Misses names ·.1) := by
      rw [List.filter_filter]
      apply List.filter_congr
      intro f _
      rw [← Bool.decide_and, decide_eq_decide]
      exact and_iff_left_of_imp fun h => h.addsNothing _
    rw [hz]
    conv_lhs => rw [← List.zipIdx_map_fst 0 filters, List.filter_map]
    rfl
  have hw : warned.map (·.1) = filters.filter (Misses names ·) ↔
      ∀ f ∈ warned, Misses names f.1 := by
    rw [hm]
    constructor
    · intro h
      have hl := congrArg List.length h
      rw [List.length_map, List.length_map] at hl
      simpa using List.length_filter_eq_length_iff.mp hl.symm
    · intro h
      rw [List.filter_eq_self.mpr fun f hf => decide_eq_true (h f hf)]
  rw [hw]
  simp [warned]

end Category

namespace Category

private theorem map_name_discover (entries : Disk.Entries) : (discover entries).map (·.name) =
    ((FoundTest.inEntries [] entries).map (·.category)).eraseDups.mergeSort fun a b => a ≤ b := by
  rw [discover, ofTests, List.map_map]
  exact List.map_id _

/-- The line that warns of a filter, with the names of the categories that there are. -/
def warningLine (names : List String) (filter : String) : String :=
  "warning: category '" ++ wanted filter ++ "' not found (available: " ++
    ", ".intercalate (names.map fun name => if name = "" then "(root)" else name) ++ ")"

theorem label_eq (name : String) : label name = if name = "" then "(root)" else name := by
  rw [label]
  simp only [String.isEmpty_iff]

theorem warning_eq (all : List Category) (filter : String) :
    warning all filter = warningLine (all.map (·.name)) filter := by
  unfold warning warningLine
  simp only [label_eq, List.map_map, Function.comp_def, toString]

end Category

private theorem unlines_append (lines others : List String) :
    unlines (lines ++ others) = String.join (lines.map (· ++ "\n")) ++ unlines others := by
  rw [unlines, List.map_append, String.join_append]
  rfl

private theorem Suite.runDirectory_warns (palette : Palette) (root : String)
    {entries : Disk.Entries}
    (filters : List String) (options : Options) (h : Category.discover entries ≠ []) :
    ∃ rest, (runDirectory palette root entries filters options).transcript =
      String.join ((Category.select (Category.discover entries) filters).2.map fun filter =>
        Category.warningLine ((Category.discover entries).map (·.name)) filter ++ "\n") ++
          rest := by
  rcases hs : Category.select (Category.discover entries) filters with ⟨selected, idle⟩
  have hw : (idle.map (Category.warning (Category.discover entries))).map (· ++ "\n") =
      idle.map fun filter =>
        Category.warningLine ((Category.discover entries).map (·.name)) filter ++ "\n" := by
    rw [List.map_map]
    apply List.map_congr_left
    intro filter _
    rw [Function.comp_apply, Category.warning_eq]
  rw [← hw]
  simp only [runDirectory, if_neg (mt List.isEmpty_iff.mp h), hs]
  split
  · exact ⟨_, unlines_append _ _⟩
  · simp only [conclude, List.append_assoc]
    exact ⟨_, unlines_append _ _⟩

namespace Category

/-- A filter is warned of exactly where it covers no category besides those that the filters before
it cover, so that it is warned of if it covers none. These are all the warnings exactly if each
filter that covers some category covers one that no filter before it does. The run of the tests
begins with a line for each. -/
theorem select_warns (all : List Category) (filters : List String) :
    let names := all.map (·.name)
    (select all filters).2 = (filters.zipIdx.filter fun f =>
      AddsNothing names (filters.take f.2) f.1).map (·.1) ∧
    ((select all filters).2 = filters.filter (Misses names ·) ↔
      ∀ f ∈ filters.zipIdx, AddsNothing names (filters.take f.2) f.1 → Misses names f.1) ∧
    ∀ palette root entries options, all = discover entries → all ≠ [] →
      ∃ rest, (Suite.runDirectory palette root entries filters options).transcript =
        String.join ((select all filters).2.map (warningLine names · ++ "\n")) ++ rest := by
  intro names
  have hs : (select all filters).2 = (filters.zipIdx.filter fun f =>
      AddsNothing names (filters.take f.2) f.1).map (·.1) := by
    rw [select_snd, choose_warns]
  refine ⟨hs, ?_, ?_⟩
  · rw [hs]
    exact warned_eq_filter_iff names filters
  · rintro palette root entries options rfl h
    exact Suite.runDirectory_warns palette root filters options h

/-- A filter within what another selects is warned of like one that selects nothing. -/
theorem select_warns_nested :
    let file := Disk.Node.file (.ok "---\n\n---\n@A\nsee @A")
    let entries : Disk.Entries := [("x.test.nlm", file),
      ("lint", .directory [("unused", .directory [("x.test.nlm", file)])])]
    let all := discover entries
    let filters := ["/lint/", "//lint/unused", "lin"]
    all ≠ [] ∧ Covers "//lint/unused" "lint/unused" ∧ Misses (all.map (·.name)) "lin" ∧
      (select all filters).2 = ["//lint/unused", "lin"] ∧
      ∃ rest, (Suite.runDirectory ⟨false⟩ "t" entries filters {}).transcript =
        "warning: category 'lint/unused' not found (available: (root), lint/unused)\n" ++
          "warning: category 'lin' not found (available: (root), lint/unused)\n" ++ rest := by
  intro file entries all filters
  have hn : all.map (·.name) = ["", "lint/unused"] := by
    rw [map_name_discover, List.mergeSort_of_pairwise (by decide +kernel)]
    decide +kernel
  have hne : all ≠ [] := by
    intro h
    rw [h] at hn
    cases hn
  obtain ⟨hs, -, hr⟩ := select_warns all filters
  obtain ⟨rest, ht⟩ := hr ⟨false⟩ "t" entries {} rfl hne
  rw [hn] at hs ht ⊢
  have hw : (select all filters).2 = ["//lint/unused", "lin"] := hs.trans (by decide +kernel)
  have hj : String.join (["//lint/unused", "lin"].map
      (warningLine ["", "lint/unused"] · ++ "\n")) =
        "warning: category 'lint/unused' not found (available: (root), lint/unused)\n" ++
          "warning: category 'lin' not found (available: (root), lint/unused)\n" := by
    decide +kernel
  rw [hw, hj] at ht
  exact ⟨hne, by decide +kernel, by decide +kernel, hw, rest, ht⟩

/-- A filter that is given twice is warned of, although it names a category. -/
theorem repeated_filter_warned :
    let entries : Disk.Entries :=
      [("a", .directory [("x.test.nlm", .file (.ok "---\n\n---\n@A\nsee @A"))])]
    let all := discover entries
    all.map (·.name) = ["a"] ∧ Covers "a" "a" ∧ (select all ["a", "a"]).2 = ["a"] ∧
      ¬ ∀ (all : List Category) (filters : List String),
        (select all filters).2 = filters.filter (Misses (all.map (·.name)) ·) := by
  intro entries all
  refine ⟨by decide +kernel, by decide +kernel, by decide +kernel, fun h => ?_⟩
  exact absurd (h all ["a", "a"]) (by decide +kernel)

end Category

end ConceptMarkup
