import Mathlib.Data.List.FinRange
import ConceptMarkup.Proofs.EditScripts
import ConceptMarkup.Proofs.SuggestionOrder

/-! Which candidates are offered for a name. They are those at the first places, as many as may be
offered, when the places with close candidates are put in the order of distance, and of the list
where distances are equal. -/
namespace ConceptMarkup

section RankedPlaces
variable {α : Type} (key : α → Nat) (bound : Nat) (l : List α)

/-- Whether the element at one place has the lesser key, or the same key at the earlier place. -/
def Precedes (i j : Fin l.length) : Prop :=
  key (l.get i) < key (l.get j) ∨ key (l.get i) = key (l.get j) ∧ i < j

/-- The places of elements with keys within the bound, in the order of keys. -/
def rankedPlaces : List (Fin l.length) :=
  ((List.finRange l.length).filter (fun i => key (l.get i) ≤ bound)).mergeSort fun i j =>
    key (l.get i) ≤ key (l.get j)

private theorem Precedes.ne {key : α → Nat} {l : List α} {i j : Fin l.length}
    (h : Precedes key l i j) : i ≠ j := by
  rintro rfl
  rcases h with hlt | ⟨-, hlt⟩
  · exact Nat.lt_irrefl _ hlt
  · exact Fin.lt_irrefl i hlt

instance : DecidableRel (Precedes key l) := fun _ _ => inferInstanceAs (Decidable (_ ∨ _))

private theorem Precedes.asymm {key : α → Nat} {l : List α} {i j : Fin l.length}
    (h : Precedes key l i j) : ¬ Precedes key l j i := by
  rintro (h' | ⟨h', hlt'⟩)
  · rcases h with h | ⟨h, -⟩
    · omega
    · omega
  · rcases h with h | ⟨-, hlt⟩
    · omega
    · exact Fin.lt_asymm hlt hlt'

private theorem mem_rankedPlaces {i : Fin l.length} :
    i ∈ rankedPlaces key bound l ↔ key (l.get i) ≤ bound := by
  rw [rankedPlaces, List.mem_mergeSort, List.mem_filter, decide_eq_true_eq]
  exact and_iff_right (List.mem_finRange i)

private theorem pairwise_rankedPlaces : (rankedPlaces key bound l).Pairwise (Precedes key l) :=
  pairwise_mergeSort_stable _ ((List.pairwise_lt_finRange _).filter _)

private theorem map_get_rankedPlaces : (rankedPlaces key bound l).map l.get =
    (l.filter (key · ≤ bound)).mergeSort fun a b => key a ≤ key b := by
  have hl : l.filter (key · ≤ bound) =
      ((List.finRange l.length).filter (fun i => key (l.get i) ≤ bound)).map l.get := by
    conv_lhs => rw [← List.map_get_finRange l, List.filter_map]
    rfl
  rw [hl, rankedPlaces]
  exact List.map_mergeSort fun i _ j _ => rfl

private theorem length_rankedPlaces :
    (rankedPlaces key bound l).length = l.countP (key · ≤ bound) := by
  have h := congrArg List.length (map_get_rankedPlaces key bound l)
  rwa [List.length_map, List.length_mergeSort, ← List.countP_eq_length_filter] at h

end RankedPlaces

private theorem suggest_eq_map (name : String) (candidates : List String) (options : Options) :
    suggest name candidates options = ((rankedPlaces (nameDistance name)
      (suggestionBound name options) candidates).take options.maxSuggestions).map
        candidates.get := by
  rw [List.map_take, map_get_rankedPlaces, suggest_eq_take]

/-- A choice of places of a list: of those whose elements have keys within a bound, the places of
the least keys, up to a count. -/
structure ClosestPlaces {α : Type} (key : α → Nat) (bound count : Nat) (l : List α)
    (places : List (Fin l.length)) : Prop where
  length : places.length = min count (l.countP (key · ≤ bound))
  within : ∀ i ∈ places, key (l.get i) ≤ bound
  distinct : places.Nodup
  ordered : places.Pairwise (Precedes key l)
  /-- Nothing that is left out comes before something that is chosen. -/
  closest : ∀ i, key (l.get i) ≤ bound → i ∉ places → ∀ j ∈ places, Precedes key l j i

private theorem closestPlaces_take {α : Type} (key : α → Nat) (bound count : Nat) (l : List α) :
    ClosestPlaces key bound count l ((rankedPlaces key bound l).take count) := by
  have hr : rankedPlaces key bound l =
      (rankedPlaces key bound l).take count ++ (rankedPlaces key bound l).drop count :=
    (List.take_append_drop _ _).symm
  have hs := pairwise_rankedPlaces key bound l
  rw [hr, List.pairwise_append] at hs
  obtain ⟨ht, -, hd⟩ := hs
  constructor
  · rw [List.length_take, length_rankedPlaces]
  · intro i hi
    exact (mem_rankedPlaces key bound l).mp (List.mem_of_mem_take hi)
  · exact ht.imp Precedes.ne
  · exact ht
  · intro i hi hn j hj
    have hm : i ∈ rankedPlaces key bound l := (mem_rankedPlaces key bound l).mpr hi
    rw [hr, List.mem_append] at hm
    exact hd j hj i (hm.resolve_left hn)

namespace ClosestPlaces

variable {α : Type} {key : α → Nat} {bound count : Nat} {l : List α}
  {places others : List (Fin l.length)}

private theorem subset (h : ClosestPlaces key bound count l places)
    (h' : ClosestPlaces key bound count l others) : places ⊆ others := by
  intro i hi
  by_contra hn
  obtain ⟨j, hj, hjn⟩ : ∃ j ∈ others, j ∉ places := by
    by_contra! hs
    have hl : places.length ≤ others.length := (h.length.trans h'.length.symm).le
    have hp : others.Perm places := (List.subperm_of_subset h'.distinct hs).perm_of_length_le hl
    exact hn (hp.mem_iff.mpr hi)
  have hji : Precedes key l j i := h'.closest i (h.within i hi) hn j hj
  have hij : Precedes key l i j := h.closest j (h'.within j hj) hjn i hi
  exact hij.asymm hji

/-- There is only one such choice. -/
theorem unique (h : ClosestPlaces key bound count l places)
    (h' : ClosestPlaces key bound count l others) : places = others := by
  have hp : places.Perm others := (List.perm_ext_iff_of_nodup h.distinct h'.distinct).mpr fun i =>
    ⟨fun hi => h.subset h' hi, fun hi => h'.subset h hi⟩
  exact hp.eq_of_pairwise (fun _ _ _ _ hij hji => absurd hji hij.asymm) h.ordered h'.ordered

end ClosestPlaces

/-- The distance of a candidate is the least number of edits between the name and the candidate,
both in lower case. What is offered for a name stands at distinct places of the list of candidates:
of those at a distance of at most half the length of the name, and of no more than is allowed, as
many as may be offered, closest first and otherwise in their order; and no one that is left out is
closer than one that is offered, or as close and earlier. -/
theorem suggest_eq_closest (name : String) (candidates : List String) (options : Options) :
    ∃ (distance : String → Nat) (places : List (Fin candidates.length)),
      (∀ candidate, IsLeast {n | EditDistance.Edits n (Text.lowercase name).toList
        (Text.lowercase candidate).toList} (distance candidate)) ∧
      suggest name candidates options = places.map candidates.get ∧
      ClosestPlaces distance (min options.maxSuggestionDistance (name.toList.length / 2))
        options.maxSuggestions candidates places :=
  ⟨nameDistance name, _, fun _ => EditDistance.least_editDistance _ _,
    suggest_eq_map name candidates options, closestPlaces_take _ _ _ _⟩

/-- In lower case this name is longer, but half of the five characters that it has bounds the
distance. Of three candidates within the bound two may be offered: the one that differs in case only
and the first of those at distance 2. -/
theorem suggest_eq_closest_in_lowercase :
    let candidates := ["Izmir", "Izmar", "i\u0307zmi\u0307r", "fig", "IZMIR"]
    suggest "İZMİR" candidates { maxSuggestions := 2 } = ["i\u0307zmi\u0307r", "Izmir"] ∧
      ∃ distance : String → Nat, candidates.map distance = [2, 3, 0, 6, 2] ∧
        (∀ candidate, IsLeast {n | EditDistance.Edits n "i\u0307zmi\u0307r".toList
          (Text.lowercase candidate).toList} (distance candidate)) ∧
        ClosestPlaces distance 2 2 candidates [2, 0] := by
  intro candidates
  have hn : Text.lowercase "İZMİR" = "i\u0307zmi\u0307r" := by decide +kernel
  obtain ⟨distance, places, hd, hs, hc⟩ :=
    suggest_eq_closest "İZMİR" candidates { maxSuggestions := 2 }
  have he : distance = nameDistance "İZMİR" :=
    funext fun c => (hd c).unique (EditDistance.least_editDistance _ _)
  have hk : candidates.map distance = [2, 3, 0, 6, 2] := by
    rw [he]
    decide +kernel
  have hchoice : ClosestPlaces distance 2 2 candidates [2, 0] := by
    rw [he]
    exact ⟨by decide +kernel, by decide +kernel, by decide, by decide +kernel, by decide +kernel⟩
  rw [hn] at hd
  rw [hc.unique hchoice] at hs
  exact ⟨hs, distance, hk, hd, hchoice⟩

end ConceptMarkup
