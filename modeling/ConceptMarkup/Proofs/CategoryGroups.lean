import Mathlib.Data.List.Lex
import Mathlib.Data.String.Basic
import ConceptMarkup.Proofs.CollectedNames
import ConceptMarkup.Proofs.TestTree

/-! The tests of a search, sorted into categories. Every test is in the one category that has its
directory as its name. What the categories hold, and in which order, is a matter of the tests alone
and not of the order in which they were found. -/
namespace ConceptMarkup

/-- The order of tests: that of their categories and, within one, that of the names on the ways to
them. -/
def FoundTest.Before (a b : FoundTest) : Prop :=
  a.category < b.category ∨ a.category = b.category ∧ a.parts < b.parts

theorem FoundTest.Before.parts_ne {a b : FoundTest} (h : Before a b) : a.parts ≠ b.parts := by
  intro he
  have hc : a.category = b.category := by
    rw [category, category, (List.append_inj' he rfl).1]
  rcases h with hl | ⟨-, hl⟩
  · exact hl.ne hc
  · exact hl.ne he

section Sorting
variable {α κ : Type} [LinearOrder κ] (key : α → κ) {le : α → α → Bool}

private theorem pairwise_lt_mergeSort (hle : ∀ a b, le a b = true ↔ key a ≤ key b) {l : List α}
    (h : (l.map key).Nodup) : (l.mergeSort le).Pairwise (key · < key ·) := by
  have hs : (l.mergeSort le).Pairwise (le · ·) := by
    apply List.pairwise_mergeSort
    · intro a b c hab hbc
      exact (hle a c).mpr (((hle a b).mp hab).trans ((hle b c).mp hbc))
    · intro a b
      rw [Bool.or_eq_true, hle, hle]
      exact le_total _ _
  have hn : ((l.mergeSort le).map key).Nodup := ((List.mergeSort_perm l le).map key).nodup_iff.mpr h
  exact hs.imp₂ (fun a b hab hne => lt_of_le_of_ne ((hle a b).mp hab) hne) (List.pairwise_map.mp hn)

private theorem mergeSort_eq_of_perm (hle : ∀ a b, le a b = true ↔ key a ≤ key b) {l l' : List α}
    (hp : l.Perm l') (h : (l.map key).Nodup) : l.mergeSort le = l'.mergeSort le := by
  have hs := (List.mergeSort_perm l le).trans (hp.trans (List.mergeSort_perm l' le).symm)
  exact hs.eq_of_pairwise (fun _ _ _ _ hab hba => absurd hab (lt_asymm hba))
    (pairwise_lt_mergeSort key hle h) (pairwise_lt_mergeSort key hle ((hp.map _).nodup_iff.mp h))

end Sorting

namespace Category
open FoundTest

/-- Categories of tests: in order of their names, each with all tests of its name and no others, in
order of the names on their ways. -/
structure Groups (tests : List FoundTest) (cs : List Category) : Prop where
  names : cs.Pairwise (·.name < ·.name)
  mem_iff : ∀ c ∈ cs, ∀ t, t ∈ c.tests ↔ t ∈ tests ∧ t.category = c.name
  ordered : ∀ c ∈ cs, c.tests.Pairwise (·.parts < ·.parts)
  ne_nil : ∀ c ∈ cs, c.tests ≠ []
  exists_mem : ∀ t ∈ tests, ∃ c ∈ cs, c.name = t.category

def sortedNames (tests : List FoundTest) : List String :=
  ((tests.map (·.category)).eraseDups).mergeSort fun a b => a ≤ b

def sortedTests (tests : List FoundTest) : List FoundTest :=
  tests.mergeSort fun a b => !b.parts.lex a.parts

private theorem ofTests_eq (tests : List FoundTest) :
    ofTests tests = (sortedNames tests).map fun name =>
    ⟨name, sortedTests (tests.filter (·.category = name))⟩ := rfl

private theorem mem_sortedNames_iff {tests : List FoundTest} {name : String} :
    name ∈ sortedNames tests ↔ ∃ t ∈ tests, t.category = name := by
  rw [sortedNames, List.mem_mergeSort, List.mem_eraseDups, List.mem_map]

private theorem pairwise_sortedNames (tests : List FoundTest) :
    (sortedNames tests).Pairwise (· < ·) :=
  pairwise_lt_mergeSort id (by simp) (by simpa using nodup_eraseDups _)

private theorem sortedNames_perm {tests others : List FoundTest} (h : tests.Perm others) :
    sortedNames tests = sortedNames others := by
  refine mergeSort_eq_of_perm id (by simp) ?_ (by simpa using nodup_eraseDups _)
  refine (List.perm_ext_iff_of_nodup (nodup_eraseDups _) (nodup_eraseDups _)).mpr fun name => ?_
  rw [List.mem_eraseDups, List.mem_eraseDups, (h.map _).mem_iff]

private theorem sortedTests_perm_self (tests : List FoundTest) : (sortedTests tests).Perm tests :=
  List.mergeSort_perm _ _

private theorem not_lex_iff {a b : FoundTest} :
    (!b.parts.lex a.parts) = true ↔ a.parts ≤ b.parts := by
  rw [Bool.not_eq_true', ← Bool.not_eq_true, List.lex_eq_true_iff_lt, not_lt]

private theorem pairwise_sortedTests {tests : List FoundTest} (h : (tests.map (·.parts)).Nodup) :
    (sortedTests tests).Pairwise (·.parts < ·.parts) :=
  pairwise_lt_mergeSort parts (fun _ _ => not_lex_iff) h

private theorem sortedTests_perm {tests others : List FoundTest} (hp : tests.Perm others)
    (h : (tests.map (·.parts)).Nodup) : sortedTests tests = sortedTests others :=
  mergeSort_eq_of_perm parts (fun _ _ => not_lex_iff) hp h

/-- Tests that are found in another order make the same categories. -/
theorem ofTests_perm {tests others : List FoundTest} (hp : tests.Perm others)
    (h : (tests.map (·.parts)).Nodup) : ofTests tests = ofTests others := by
  rw [ofTests_eq, ofTests_eq, sortedNames_perm hp]
  refine List.map_congr_left fun name _ => ?_
  rw [sortedTests_perm (hp.filter _) (h.sublist (List.filter_sublist.map _))]

theorem groups_ofTests {tests : List FoundTest} (h : (tests.map (·.parts)).Nodup) :
    Groups tests (ofTests tests) := by
  have hm : ∀ name t, t ∈ sortedTests (tests.filter (·.category = name)) ↔
      t ∈ tests ∧ t.category = name := by
    intro name t
    rw [(sortedTests_perm_self _).mem_iff, List.mem_filter, decide_eq_true_eq]
  rw [ofTests_eq]
  constructor
  · exact List.pairwise_map.mpr (pairwise_sortedNames tests)
  · intro c hc
    obtain ⟨name, -, rfl⟩ := List.mem_map.mp hc
    exact hm name
  · intro c hc
    obtain ⟨name, -, rfl⟩ := List.mem_map.mp hc
    exact pairwise_sortedTests (h.sublist (List.filter_sublist.map _))
  · intro c hc
    obtain ⟨name, hn, rfl⟩ := List.mem_map.mp hc
    obtain ⟨t, ht, he⟩ := mem_sortedNames_iff.mp hn
    exact List.ne_nil_of_mem ((hm name t).mpr ⟨ht, he⟩)
  · intro t ht
    exact ⟨_, List.mem_map_of_mem (mem_sortedNames_iff.mpr ⟨t, ht, rfl⟩), rfl⟩

namespace Groups
variable {tests : List FoundTest} {cs : List Category}

/-- A test is in one category and no other. -/
theorem existsUnique_mem (h : Groups tests cs) {t : FoundTest} (ht : t ∈ tests) :
    ∃ c ∈ cs, c.name = t.category ∧ ∀ c' ∈ cs, t ∈ c'.tests ↔ c' = c := by
  obtain ⟨c, hc, hn⟩ := h.exists_mem t ht
  have hd : (cs.map (·.name)).Nodup := List.pairwise_map.mpr (h.names.imp LT.lt.ne)
  refine ⟨c, hc, hn, fun c' hc' => ?_⟩
  rw [h.mem_iff c' hc', and_iff_right ht, ← hn]
  constructor
  · intro he
    exact List.inj_on_of_nodup_map hd hc' hc he.symm
  · rintro rfl
    rfl

/-- Some of the categories, one after the other, hold their tests in order. -/
theorem pairwise_before (h : Groups tests cs) {chosen : List Category} (hs : chosen.Sublist cs) :
    (chosen.flatMap (·.tests)).Pairwise Before := by
  have hc : ∀ c ∈ chosen, ∀ t ∈ c.tests, t.category = c.name :=
    fun c hm t ht => ((h.mem_iff c (hs.mem hm) t).mp ht).2
  rw [List.pairwise_flatMap]
  constructor
  · intro c hm
    refine (h.ordered c (hs.mem hm)).imp_of_mem fun ha hb hab => .inr ⟨?_, hab⟩
    rw [hc c hm _ ha, hc c hm _ hb]
  · refine (h.names.sublist hs).imp_of_mem fun ha hb hab t ht t' ht' => .inl ?_
    rw [hc _ ha t ht, hc _ hb t' ht']
    exact hab

end Groups

end Category
end ConceptMarkup
