import Mathlib.Order.Bounds.Basic
import ConceptMarkup.Expectation.Verdict
import ConceptMarkup.Proofs.Findings
import ConceptMarkup.Proofs.MarkSearch

/-! When a test passes. What it expects of the diagnostics is compared with what is found, one by
one, and the first that differs is reported by its number. -/
namespace ConceptMarkup

/-- A diagnostic is what is expected: it is found by the check that is named, a text stands in its
message or in one of its notes, and it starts on a line, as far as these are given. -/
structure ExpectedDiagnostic.Met (e : ExpectedDiagnostic) (d : Diagnostic) : Prop where
  code : ∃ code : Code, code.name = e.code ∧ d.code = some code
  contains : ∀ text ∈ e.contains, ∃ s ∈ d.message :: d.notes, text.toList <:+: s.toList
  line : ∀ line ∈ e.line, d.range.start.line = line

/-- As many diagnostics are found as are expected, each in its place. -/
structure AllMet (expected : List ExpectedDiagnostic) (found : List Diagnostic) : Prop where
  length : expected.length = found.length
  each : ∀ (i : Nat) (e : ExpectedDiagnostic) (d : Diagnostic),
    expected[i]? = some e → found[i]? = some d → e.Met d

/-- The diagnostic of a number is not what is expected. -/
def Unmet (expected : List ExpectedDiagnostic) (found : List Diagnostic) (i : Nat) : Prop :=
  ∃ (e : ExpectedDiagnostic) (d : Diagnostic),
    expected[i]? = some e ∧ found[i]? = some d ∧ ¬ e.Met d

def Mismatch.index? : Mismatch → Option Nat
  | unknownCode i _ | code i _ _ | text i _ _ | line i _ _ => some i
  | unreadable _ | malformed _ | concepts _ _ | count _ _ => none

private theorem Code.ofName?_eq_some_iff {name : String} {code : Code} :
    Code.ofName? name = some code ↔ code.name = name := by
  constructor
  · intro h
    rw [Code.ofName?] at h
    simpa using List.find?_some h
  · rintro rfl
    cases code <;> decide

private theorem Diagnostic.mentions_iff {d : Diagnostic} {needle : String} :
    d.mentions needle ↔ ∃ s ∈ d.message :: d.notes, needle.toList <:+: s.toList := by
  have hh : ∀ s : String, Text.holds needle.toList s.toList ↔ needle.toList <:+: s.toList := by
    intro s
    rw [Text.holds, ← not_iff_not, Bool.not_eq_true, Option.isSome_eq_false_iff,
      Option.isNone_iff_eq_none, Text.splitOnce?_eq_none_iff]
  rw [Diagnostic.mentions, List.any_eq_true]
  simp only [hh]

namespace ExpectedDiagnostic

private theorem mismatch?_eq_none_iff {e : ExpectedDiagnostic} {i : Nat} {d : Diagnostic} :
    e.mismatch? i d = none ↔ e.Met d := by
  have hc : e.contains.filter (!d.mentions ·) = none ↔
      ∀ text ∈ e.contains, ∃ s ∈ d.message :: d.notes, text.toList <:+: s.toList := by
    simp only [Option.filter_eq_none_iff, Option.mem_def, Bool.not_eq_true', Bool.not_eq_false,
      Diagnostic.mentions_iff]
  have hl : e.line.filter (d.range.start.line ≠ ·) = none ↔
      ∀ line ∈ e.line, d.range.start.line = line := by
    simp only [Option.filter_eq_none_iff, Option.mem_def, decide_eq_true_eq, not_not]
  rw [mismatch?]
  split
  · next hn =>
    refine iff_of_false (Option.some_ne_none _) fun hm => ?_
    obtain ⟨code, hcode, -⟩ := hm.code
    rw [Code.ofName?_eq_some_iff.mpr hcode] at hn
    cases hn
  · next code hn =>
    have hcode : code.name = e.code := Code.ofName?_eq_some_iff.mp hn
    split
    · next hd =>
      refine iff_of_false (Option.some_ne_none _) fun hm => ?_
      obtain ⟨code', hcode', hd'⟩ := hm.code
      rw [Code.ofName?_eq_some_iff.mpr hcode'] at hn
      exact hd (hd'.trans hn)
    · next hd =>
      split
      · next needle hf =>
        refine iff_of_false (Option.some_ne_none _) fun hm => ?_
        rw [hc.mpr hm.contains] at hf
        cases hf
      · next line hf hg =>
        refine iff_of_false (Option.some_ne_none _) fun hm => ?_
        rw [hl.mpr hm.line] at hg
        cases hg
      · next hf hg =>
        refine iff_of_true rfl ⟨⟨code, hcode, not_not.mp hd⟩, hc.mp hf, hl.mp hg⟩

private theorem index?_of_mismatch? {e : ExpectedDiagnostic} {i : Nat} {d : Diagnostic}
    {m : Mismatch}
    (h : e.mismatch? i d = some m) : m.index? = some i := by
  rw [mismatch?] at h
  split at h
  · cases h
    rfl
  · split at h
    · cases h
      rfl
    · split at h
      · cases h
        rfl
      · cases h
        rfl
      · cases h

end ExpectedDiagnostic

private theorem findSome?_zipIdx {α β : Type} {l : List α} {f : α × Nat → Option β} {b : β}
    (h : l.zipIdx.findSome? f = some b) : ∃ i a, l[i]? = some a ∧ f (a, i) = some b ∧
      ∀ j < i, ∀ a', l[j]? = some a' → f (a', j) = none := by
  obtain ⟨before, ⟨a, i⟩, after, hl, hf, hn⟩ := List.findSome?_eq_some_iff.mp h
  have hi : l.zipIdx[before.length]? = some (a, i) := by
    rw [hl, List.getElem?_append_right (Nat.le_refl _), Nat.sub_self, List.getElem?_cons_zero]
  rw [List.getElem?_zipIdx, Option.map_eq_some_iff] at hi
  obtain ⟨a', ha, he⟩ := hi
  obtain ⟨rfl, rfl⟩ := Prod.mk.inj he
  rw [Nat.zero_add] at hf
  refine ⟨before.length, a', ha, hf, fun j hj a hj' => hn _ ?_⟩
  have hz : l.zipIdx[j]? = some (a, j) := by
    rw [List.getElem?_zipIdx, hj', Option.map_some, Nat.zero_add]
  rw [hl, List.getElem?_append_left hj] at hz
  exact List.mem_of_getElem? hz

section
variable {expected : List ExpectedDiagnostic} {found : List Diagnostic}

private theorem AllMet.not_unmet (h : AllMet expected found) (i : Nat) :
    ¬ Unmet expected found i := by
  rintro ⟨e, d, he, hd, hn⟩
  exact hn (h.each i e d he hd)

private theorem diagnosticsMismatch?_of_length_eq (hl : expected.length = found.length) :
    diagnosticsMismatch? found expected =
      (found.zip expected).zipIdx.findSome? fun ((d, e), i) => e.mismatch? i d :=
  if_neg (not_not_intro hl.symm)

private theorem isLeast_of_diagnosticsMismatch? (hl : expected.length = found.length) {m : Mismatch}
    (h : diagnosticsMismatch? found expected = some m) :
    ∃ i, m.index? = some i ∧ IsLeast {i | Unmet expected found i} i := by
  rw [diagnosticsMismatch?_of_length_eq hl] at h
  obtain ⟨i, ⟨d, e⟩, hz, hm, hn⟩ := findSome?_zipIdx h
  obtain ⟨hd, he⟩ := List.getElem?_zip_eq_some.mp hz
  refine ⟨i, ExpectedDiagnostic.index?_of_mismatch? hm, ⟨e, d, he, hd, fun hmet => ?_⟩, ?_⟩
  · exact Option.some_ne_none m
      (hm.symm.trans (ExpectedDiagnostic.mismatch?_eq_none_iff.mpr hmet))
  · rintro j ⟨e', d', he', hd', hm'⟩
    by_contra hj
    have hz' : (found.zip expected)[j]? = some (d', e') :=
      List.getElem?_zip_eq_some.mpr ⟨hd', he'⟩
    exact hm' (ExpectedDiagnostic.mismatch?_eq_none_iff.mp (hn j (Nat.lt_of_not_le hj) _ hz'))

private theorem diagnosticsMismatch?_eq_none_iff :
    diagnosticsMismatch? found expected = none ↔ AllMet expected found := by
  by_cases hl : expected.length = found.length
  · constructor
    · intro h
      rw [diagnosticsMismatch?_of_length_eq hl, List.findSome?_eq_none_iff] at h
      refine ⟨hl, fun i e d he hd => ?_⟩
      have hz : (found.zip expected)[i]? = some (d, e) := List.getElem?_zip_eq_some.mpr ⟨hd, he⟩
      exact ExpectedDiagnostic.mismatch?_eq_none_iff.mp
        (h ((d, e), i) (List.mem_zipIdx_iff_getElem?.mpr hz))
    · intro h
      cases hm : diagnosticsMismatch? found expected with
      | none => rfl
      | some m =>
        obtain ⟨i, -, hu, -⟩ := isLeast_of_diagnosticsMismatch? hl hm
        exact absurd hu (h.not_unmet i)
  · refine iff_of_false (fun h => ?_) fun h => hl h.length
    rw [diagnosticsMismatch?, if_pos (Ne.symm hl)] at h
    cases h

end

/-- The names of the concepts are what is expected of them, if that is given. -/
def Expectation.NamesAgree (e : Expectation) (d : Document) : Prop :=
  ∀ names ∈ e.concepts, names = d.names

private theorem Expectation.namesAgree_iff {e : Expectation} {d : Document} :
    e.concepts.filter (· ≠ d.names) = none ↔ e.NamesAgree d := by
  simp only [Option.filter_eq_none_iff, Option.mem_def, decide_eq_true_eq, not_not, NamesAgree]

private theorem Expectation.mismatch?_of_namesAgree {e : Expectation} {d : AnalyzedDocument}
    (h : e.NamesAgree d.document) :
    e.mismatch? d = e.diagnostics.bind (diagnosticsMismatch? d.diagnostics) := by
  rw [mismatch?, namesAgree_iff.mpr h]

private theorem Expectation.mismatch?_eq_none_iff {e : Expectation} {d : AnalyzedDocument} :
    e.mismatch? d = none ↔ e.NamesAgree d.document ∧
      ∀ expected ∈ e.diagnostics, AllMet expected d.diagnostics := by
  by_cases h : e.NamesAgree d.document
  · rw [mismatch?_of_namesAgree h, Option.bind_eq_none_iff, and_iff_right h]
    simp only [diagnosticsMismatch?_eq_none_iff, Option.mem_def]
  · obtain ⟨names, hn⟩ := Option.ne_none_iff_exists'.mp (mt namesAgree_iff.mp h)
    refine iff_of_false ?_ fun hm => h hm.1
    rw [mismatch?, hn]
    exact Option.some_ne_none _

namespace TestResult

end TestResult

end ConceptMarkup
