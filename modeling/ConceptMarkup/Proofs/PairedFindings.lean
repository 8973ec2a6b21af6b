import Mathlib.Data.List.Forall2
import ConceptMarkup.Proofs.Findings

/-! Two analyses side by side. Where the concepts and the references of two documents agree in their
names, one by one, the findings come in pairs, and what is to be shown of a pair is to be shown of
the concepts or the references that it is about. -/
namespace ConceptMarkup

open List (Forall₂)

theorem map_eq_of_forall₂ {α β γ : Type} {S : α → β → Prop} {f : α → γ} {g : β → γ}
    (hS : ∀ a b, S a b → f a = g b) {l : List α} {l' : List β} (h : Forall₂ S l l') :
    l.map f = l'.map g := by
  induction h with
  | nil => rfl
  | cons hab _ ih => rw [List.map_cons, List.map_cons, hS _ _ hab, ih]

private theorem zipIdx_forall₂ {α β : Type} {S : α → β → Prop} {l : List α} {l' : List β}
    (h : Forall₂ S l l') (n : Nat) :
    Forall₂ (fun p p' => S p.1 p'.1 ∧ p.2 = p'.2) (l.zipIdx n) (l'.zipIdx n) := by
  induction h generalizing n with
  | nil => exact .nil
  | cons hab _ ih => exact .cons ⟨hab, rfl⟩ (ih (n + 1))

private theorem option_rel_map {α β γ δ : Type} {S : α → β → Prop} {T : γ → δ → Prop} {f : α → γ}
    {g : β → δ} {a : Option α} {b : Option β} (h : Option.Rel S a b)
    (hf : ∀ a b, S a b → T (f a) (g b)) : Option.Rel T (a.map f) (b.map g) := by
  cases h with
  | none => exact .none
  | some hab => exact .some (hf _ _ hab)

section Concepts
variable {S : Concept → Concept → Prop} (hS : ∀ c c', S c c' → c.name = c'.name)
  {cs cs' : List Concept}
include hS

private theorem Concept.firstNamed_rel (h : Forall₂ S cs cs') (name : String) :
    Option.Rel S (Concept.firstNamed name cs) (Concept.firstNamed name cs') := by
  induction h with
  | nil => exact .none
  | @cons c c' cs cs' hc _ ih =>
    rw [Concept.firstNamed, Concept.firstNamed, List.find?_cons, List.find?_cons, ← hS c c' hc]
    cases decide (c.name = name) with
    | true => exact .some hc
    | false => exact ih

private theorem Concept.redefinitions_forall₂ (h : Forall₂ S cs cs') :
    Forall₂ (fun p p' => S p.1 p'.1 ∧ S p.2 p'.2)
      (Concept.redefinitions cs) (Concept.redefinitions cs') := by
  refine List.rel_filterMap ?_ (zipIdx_forall₂ h 0)
  rintro ⟨c, i⟩ ⟨c', _⟩ ⟨hc, rfl⟩
  dsimp only
  rw [← hS c c' hc]
  apply option_rel_map (firstNamed_rel hS (List.forall₂_take i h) c.name)
  intro _ _ hf
  exact ⟨hf, hc⟩

end Concepts

namespace Document

variable {d d' : Document} {R : Diagnostic → Diagnostic → Prop}

theorem duplicateErrors_forall₂ {S : Concept → Concept → Prop}
    (hS : ∀ c c', S c c' → c.name = c'.name) (hc : Forall₂ S d.concepts d'.concepts)
    (hR : ∀ first first' c c', S first first' → S c c' →
      R (.duplicateDefinition first c) (.duplicateDefinition first' c')) :
    Forall₂ R d.duplicateErrors d'.duplicateErrors := by
  refine List.rel_map ?_ (Concept.redefinitions_forall₂ hS hc)
  rintro ⟨first, c⟩ ⟨first', c'⟩ ⟨hf, hc⟩
  exact hR first first' c c' hf hc

theorem undefinedErrors_eq (d : Document) (options : Options) : d.undefinedErrors options =
    (d.referencedNames.filter (· ∉ d.names)).flatMap fun name =>
      (Reference.to name d.references).map fun r =>
        .undefinedReference r (d.suggestionsFor options r.name) := by
  simp only [undefinedErrors, mem_definedNames_iff, occurrences_eq]
  apply List.flatMap_congr
  intro name _
  apply List.map_congr_left
  intro r hr
  rw [undefinedReference_eq, (Reference.mem_to_iff.mp hr).2]

theorem unusedWarnings_eq (d : Document) : d.unusedWarnings =
    (d.definedNames.filter (· ∉ d.references.map (·.name))).filterMap fun name =>
      (Concept.firstNamed name d.concepts).map .unusedConcept := by
  simp only [unusedWarnings, mem_referencedNames_iff]
  apply List.filterMap_congr
  intro name _
  apply Option.map_congr
  intro c hc
  rw [Diagnostic.unusedConcept, (Concept.mem_of_firstNamed hc).2]

theorem undefinedErrors_forall₂ {o o' : Options} {S : Reference → Reference → Prop}
    (hn : d.names = d'.names) (hS : ∀ r r', S r r' → r.name = r'.name)
    (hr : Forall₂ S d.references d'.references)
    (hR : ∀ r r', S r r' → R (.undefinedReference r (d.suggestionsFor o r.name))
      (.undefinedReference r' (d'.suggestionsFor o' r'.name))) :
    Forall₂ R (d.undefinedErrors o) (d'.undefinedErrors o') := by
  have hk : d.referencedNames = d'.referencedNames := by
    rw [referencedNames, referencedNames, occurrences_eq, occurrences_eq, map_eq_of_forall₂ hS hr]
  rw [undefinedErrors_eq, undefinedErrors_eq, hk, hn]
  refine List.rel_flatMap (R := Eq) (List.forall₂_refl _) ?_
  rintro name _ rfl
  refine List.rel_map @hR (List.rel_filter ?_ hr)
  intro r r' hrr
  dsimp only
  rw [hS r r' hrr]

theorem unusedWarnings_forall₂ {S : Concept → Concept → Prop}
    (hS : ∀ c c', S c c' → c.name = c'.name) (hc : Forall₂ S d.concepts d'.concepts)
    (hr : d.references.map (·.name) = d'.references.map (·.name))
    (hR : ∀ c c', S c c' → R (.unusedConcept c) (.unusedConcept c')) :
    Forall₂ R d.unusedWarnings d'.unusedWarnings := by
  have hk : d.definedNames = d'.definedNames := by
    rw [definedNames, definedNames, map_eq_of_forall₂ hS hc]
  rw [unusedWarnings_eq, unusedWarnings_eq, hk, hr]
  refine List.rel_filterMap (R := Eq) ?_ (List.forall₂_refl _)
  rintro name _ rfl
  exact option_rel_map (Concept.firstNamed_rel hS hc name) hR

end Document

end ConceptMarkup
