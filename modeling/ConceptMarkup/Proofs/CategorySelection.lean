import Mathlib.Data.List.DropRight
import ConceptMarkup.Proofs.CategoryFilters

/-! What a list of filters selects. A filter, without the slashes around it, is the name of a
category or the first of the steps between slashes that lead to it; it never ends within a step. The
order of the filters does not matter, nor how often one is given: several select what any of them
does. -/
namespace ConceptMarkup

private theorem intercalate_append {α : Type} (sep : List α) {as bs : List (List α)} (ha : as ≠ [])
    (hb : bs ≠ []) :
    sep.intercalate (as ++ bs) = sep.intercalate as ++ (sep ++ sep.intercalate bs) := by
  induction as with
  | nil => exact absurd rfl ha
  | cons a as ih =>
    cases as with
    | nil =>
      rw [List.singleton_append, List.intercalate_cons_of_ne_nil hb, List.intercalate_singleton,
        List.append_assoc]
    | cons a' as =>
      rw [List.cons_append, List.intercalate_cons_of_ne_nil (by simp), ih (List.cons_ne_nil _ _),
        List.intercalate_cons_cons, List.append_assoc (a ++ sep)]

namespace Category

/-- A filter is a text between slashes, however many, that neither begins nor ends with one. -/
structure Stripped (filter text : String) : Prop where
  whole : ∃ before after, filter.toList =
    List.replicate before '/' ++ (text.toList ++ List.replicate after '/')
  head : text.toList.head? ≠ some '/'
  last : text.toList.getLast? ≠ some '/'

def isSlash (c : Char) : Bool := c = '/'

private theorem toList_wanted (filter : String) :
    (wanted filter).toList = (filter.toList.dropWhile isSlash).rdropWhile isSlash :=
  String.toList_ofList

private theorem stripped_wanted (filter : String) : Stripped filter (wanted filter) := by
  have hs : ∀ {cs : List Char}, (∀ c ∈ cs, isSlash c) → cs = List.replicate cs.length '/' := by
    intro cs h
    exact List.eq_replicate_of_mem fun c hc => of_decide_eq_true (h c hc)
  let rest := filter.toList.dropWhile isSlash
  have hr : rest.rdropWhile isSlash ++ rest.rtakeWhile isSlash = rest :=
    List.rdropWhile_append_rtakeWhile
  constructor
  · refine ⟨(filter.toList.takeWhile isSlash).length, (rest.rtakeWhile isSlash).length, ?_⟩
    rw [toList_wanted, ← hs fun c hc => List.mem_takeWhile_imp hc,
      ← hs fun c hc => List.mem_rtakeWhile_imp hc, hr, List.takeWhile_append_dropWhile]
  · intro h
    have hn := List.head?_dropWhile_not isSlash filter.toList
    rw [toList_wanted] at h
    rw [show filter.toList.dropWhile isSlash = rest from rfl, ← hr, List.head?_append, h] at hn
    exact Bool.noConfusion hn
  · intro h
    rw [toList_wanted] at h
    obtain ⟨hne, hl⟩ := List.mem_getLast?_eq_getLast h
    exact List.rdropWhile_last_not _ rest hne (decide_eq_true hl.symm)

private theorem Stripped.eq_wanted {filter text : String} (h : Stripped filter text) :
    text = wanted filter := by
  obtain ⟨before, after, hw⟩ := h.whole
  have hp : ∀ n, ∀ c ∈ List.replicate n '/', isSlash c := by
    intro n c hc
    exact decide_eq_true (List.eq_of_mem_replicate hc)
  have hd : ∀ cs : List Char, (cs ++ List.replicate after '/').rdropWhile isSlash =
      cs.rdropWhile isSlash := by
    intro cs
    rw [List.rdropWhile, List.reverse_append, List.reverse_replicate,
      List.dropWhile_append_of_pos (hp after), List.rdropWhile]
  rw [← String.toList_inj, toList_wanted, hw, List.dropWhile_append_of_pos (hp before)]
  cases hc : text.toList with
  | nil => simp [isSlash]
  | cons c cs =>
    have hf : ¬ isSlash c := by
      intro he
      exact h.head (by rw [hc, of_decide_eq_true he, List.head?_cons])
    rw [List.cons_append, List.dropWhile_cons_of_neg hf, ← List.cons_append, hd, eq_comm,
      List.rdropWhile_eq_self_iff]
    intro hne he
    exact h.last (by rw [hc, List.getLast?_eq_some_getLast hne, of_decide_eq_true he])

private theorem covers_iff_stripped {filter name : String} : Covers filter name ↔
    ∃ text, Stripped filter text ∧ (name = text ∨ ∃ below, name = text ++ "/" ++ below) := by
  constructor
  · intro h
    exact ⟨wanted filter, stripped_wanted filter, h⟩
  · rintro ⟨text, hs, h⟩
    rwa [hs.eq_wanted] at h

def steps (text : String) : List (List Char) := text.toList.splitOn '/'

private theorem steps_ne_nil (text : String) :
    steps text ≠ [] := List.splitOn_ne_nil '/' text.toList

private theorem steps_append (text below : String) :
    steps (text ++ "/" ++ below) = steps text ++ steps below := by
  have hl : (text ++ "/" ++ below).toList = text.toList ++ '/' :: below.toList := by simp
  rw [steps, hl, List.splitOn_append_cons_self, steps, steps]

private theorem covers_iff_steps {filter name : String} :
    Covers filter name ↔ steps (wanted filter) <+: steps name := by
  constructor
  · rintro (rfl | ⟨below, rfl⟩)
    · exact List.prefix_rfl
    · rw [steps_append]
      exact List.prefix_append _ _
  · rintro ⟨rest, h⟩
    have hj : ∀ text : String, ['/'].intercalate (steps text) = text.toList :=
      fun text => List.intercalate_splitOn '/'
    by_cases hr : rest = []
    · left
      rw [hr, List.append_nil] at h
      rw [← String.toList_inj, ← hj name, ← h, hj]
    · right
      refine ⟨.ofList (['/'].intercalate rest), ?_⟩
      have hn := hj name
      rw [← h, intercalate_append _ (steps_ne_nil _) hr, hj] at hn
      simp [← String.toList_inj, ← hn]

private theorem covers_append_iff {filter more : String} :
    Covers filter (wanted filter ++ more) ↔ more = "" ∨ ∃ below, more = "/" ++ below := by
  rw [Covers]
  refine or_congr ?_ (exists_congr fun below => ?_)
  · exact String.append_eq_left_iff
  · rw [String.append_assoc, String.append_right_inj]

/-- Whether filters select a category of some name. Without filters all are selected. -/
def Selected (filters : List String) (name : String) : Prop :=
  filters = [] ∨ ∃ f ∈ filters, Covers f name

instance (filters : List String) : DecidablePred (Selected filters) :=
  fun _ => inferInstanceAs (Decidable (_ ∨ _))

private theorem select_fst (all : List Category) (filters : List String) :
    (select all filters).1 = all.filter (Selected filters ·.name) := by
  rw [select]
  split
  · next h =>
    refine (List.filter_eq_self.mpr fun c _ => ?_).symm
    exact decide_eq_true (.inl (List.isEmpty_iff.mp h))
  · next h =>
    apply List.filter_congr
    intro c hc
    have hm : c.name ∈ all.map (·.name) := List.mem_map_of_mem hc
    have hn : filters ≠ [] := mt List.isEmpty_iff.mpr h
    rw [List.contains_eq_mem, decide_eq_decide, mem_choose_iff, Selected, or_iff_right hn,
      or_iff_right List.not_mem_nil, and_iff_right hm]

theorem select_sublist (all : List Category) (filters : List String) :
    (select all filters).1.Sublist all := by
  rw [select_fst]
  exact List.filter_sublist

private theorem selected_iff {filters : List String} (h : filters ≠ []) {name : String} :
    Selected filters name ↔ ∃ f ∈ filters, Covers f name :=
  or_iff_right h

private theorem selected_singleton {filter name : String} :
    Selected [filter] name ↔ Covers filter name := by
  rw [selected_iff (List.cons_ne_nil filter [])]
  simp

private theorem selected_append {filters others : List String} (hf : filters ≠ [])
    (ho : others ≠ [])
    {name : String} :
    Selected (filters ++ others) name ↔ Selected filters name ∨ Selected others name := by
  rw [selected_iff hf, selected_iff ho, selected_iff (List.append_ne_nil_of_left_ne_nil hf others)]
  simp only [List.mem_append, or_and_right, exists_or]

private theorem selected_congr {filters others : List String} (h : ∀ f, f ∈ others ↔ f ∈ filters)
    {name : String} : Selected others name ↔ Selected filters name := by
  simp only [Selected, List.eq_nil_iff_forall_not_mem, h]

theorem mem_select_iff {all : List Category} {filters : List String} {c : Category} :
    c ∈ (select all filters).1 ↔ c ∈ all ∧ Selected filters c.name := by
  rw [select_fst, List.mem_filter, decide_eq_true_eq]

/-- From a map of categories, in order of their names, filters select those that one of them names,
or one above, each as it is and in the same order. It makes no difference in which order the filters
come or whether some come again, and more filters select what they select in addition. A filter
leads step by step to what it selects: a name that only begins with it is passed by. -/
theorem select_selects {all : List Category} (ha : all.Pairwise (·.name < ·.name))
    {filters : List String} (hf : filters ≠ []) :
    let selection := fun fs : List String => (select all fs).1
    (∀ c, c ∈ selection filters ↔ c ∈ all ∧ ∃ f ∈ filters, ∃ text, Stripped f text ∧
      (c.name = text ∨ ∃ below, c.name = text ++ "/" ++ below)) ∧
    (selection filters).Pairwise (·.name < ·.name) ∧
    (∀ others, (∀ f, f ∈ others ↔ f ∈ filters) → selection others = selection filters) ∧
    (∀ others, others ≠ [] → ∀ c,
      c ∈ selection (filters ++ others) ↔ c ∈ selection filters ∨ c ∈ selection others) ∧
    ∀ f text, Stripped f text →
      (∀ c, c ∈ selection [f] ↔ c ∈ all ∧ steps text <+: steps c.name) ∧
      ∀ more, more ≠ "" → more.toList.head? ≠ some '/' →
        ∀ c ∈ selection [f], c.name ≠ text ++ more := by
  intro selection
  refine ⟨fun c => ?_, ?_, fun others ho => ?_, fun others ho c => ?_, fun f text hs => ⟨?_, ?_⟩⟩
  · simp only [selection, mem_select_iff, selected_iff hf, covers_iff_stripped]
  · simp only [selection, select_fst]
    exact ha.filter _
  · simp only [selection, select_fst, selected_congr ho]
  · simp only [selection, mem_select_iff, selected_append hf ho, and_or_left]
  · intro c
    simp only [selection, mem_select_iff, selected_singleton, hs.eq_wanted, covers_iff_steps]
  · intro more hne hh c hc he
    simp only [selection, mem_select_iff, selected_singleton, he, hs.eq_wanted] at hc
    rcases covers_append_iff.mp hc.2 with rfl | ⟨below, rfl⟩
    · exact hne rfl
    · exact hh (by simp)

/-- A filter given twice, another within what it selects, slashes around them, and a sibling whose
name begins like the filter. -/
theorem select_selects_nested :
    let category := fun directories : List String =>
      (⟨"/".intercalate directories, [⟨directories, "x.test.nlm", .ok ""⟩]⟩ : Category)
    let all := [[], ["lint"], ["lint", "deep"], ["lint2"]].map category
    let filters := ["//lint/deep", "lint/", "lint/"]
    let others := ["lint/", "//lint/deep"]
    (filters ≠ [] ∧ all.Pairwise (·.name < ·.name) ∧ (∀ f, f ∈ others ↔ f ∈ filters) ∧
      Stripped "lint/" "lint") ∧
      category ["lint", "deep"] ∈ (select all filters).1 ∧
      (select all others).1 = (select all filters).1 ∧
      category ["lint2"] ∉ (select all ["lint/"]).1 := by
  intro category all filters others
  have hf : filters ≠ [] := List.cons_ne_nil _ _
  have ha : all.Pairwise (·.name < ·.name) := by decide +kernel
  have ho : ∀ f, f ∈ others ↔ f ∈ filters := by
    intro f
    simp [others, filters, or_comm]
  have hl : Stripped "lint/" "lint" := ⟨⟨0, 1, rfl⟩, by decide, by decide⟩
  obtain ⟨hm, -, hc, -, hs⟩ := select_selects ha hf
  refine ⟨⟨hf, ha, ho, hl⟩, ?_, hc others ho, fun h => ?_⟩
  · refine (hm _).mpr ⟨by simp [all], "lint/", by simp [filters], "lint", hl, .inr ⟨"deep", ?_⟩⟩
    decide +kernel
  · exact (hs "lint/" "lint" hl).2 "2" (by decide) (by decide) _ h (by decide +kernel)

end Category
end ConceptMarkup
