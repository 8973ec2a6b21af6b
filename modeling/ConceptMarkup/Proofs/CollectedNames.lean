import Mathlib.Data.List.Dedup
import Mathlib.Data.List.Induction
import ConceptMarkup.Analysis
import ConceptMarkup.Proofs.IndexEntries

/-! What an analysis collects, as a view of the document. Both indices list the names met so far in
the order of their first occurrences; a definition is the first concept of its name, and the
references to a name are all there are, in order. Each holds for one more concept or reference. -/
namespace ConceptMarkup

def Concept.firstNamed (name : String) (concepts : List Concept) : Option Concept :=
  concepts.find? (·.name = name)

/-- The concepts whose names occur before them, each after the first concept of its name. -/
def Concept.redefinitions (concepts : List Concept) : List (Concept × Concept) :=
  concepts.zipIdx.filterMap fun (c, i) => (firstNamed c.name (concepts.take i)).map (·, c)

def Reference.to (name : String) (references : List Reference) : List Reference :=
  references.filter (·.name = name)

theorem eraseDups_concat (names : List String) (name : String) :
    (names ++ [name]).eraseDups =
      if name ∈ names then names.eraseDups else names.eraseDups ++ [name] := by
  rw [List.eraseDups_append]
  split
  · next h => simp [List.removeAll, h]
  · next h => simp [List.removeAll, h, List.eraseDups_cons]

private theorem eraseDups_concat_of_mem {names : List String} {name : String} (h : name ∈ names) :
    (names ++ [name]).eraseDups = names.eraseDups := by
  rw [eraseDups_concat, if_pos h]

theorem eraseDups_concat_of_not_mem {names : List String} {name : String}
    (h : name ∉ names) : (names ++ [name]).eraseDups = names.eraseDups ++ [name] := by
  rw [eraseDups_concat, if_neg h]

theorem nodup_eraseDups (names : List String) : names.eraseDups.Nodup := by
  induction names using List.reverseRecOn with
  | nil => exact List.nodup_nil
  | append_singleton names name ih =>
    by_cases h : name ∈ names
    · rw [eraseDups_concat_of_mem h]
      exact ih
    · rw [eraseDups_concat_of_not_mem h]
      rw [← List.concat_eq_append]
      exact ih.concat fun hm => h (List.mem_eraseDups.mp hm)

theorem eraseDups_perm_dedup (names : List String) : names.eraseDups.Perm names.dedup :=
  (List.perm_ext_iff_of_nodup (nodup_eraseDups names) (List.nodup_dedup names)).mpr fun name => by
    rw [List.mem_eraseDups, List.mem_dedup]

namespace Concept

theorem firstNamed_eq_none_iff {name : String} {concepts : List Concept} :
    firstNamed name concepts = none ↔ name ∉ concepts.map (·.name) := by
  simp [firstNamed]

theorem mem_of_firstNamed {name : String} {concepts : List Concept} {c : Concept}
    (h : firstNamed name concepts = some c) : c ∈ concepts ∧ c.name = name :=
  ⟨List.mem_of_find?_eq_some h, by simpa using List.find?_some h⟩

theorem name_mem_of_firstNamed {name : String} {concepts : List Concept} {c : Concept}
    (h : firstNamed name concepts = some c) : name ∈ concepts.map (·.name) := by
  obtain ⟨hm, rfl⟩ := mem_of_firstNamed h
  exact List.mem_map_of_mem hm

private theorem firstNamed_concat (name : String) (concepts : List Concept) (c : Concept) :
    firstNamed name (concepts ++ [c]) =
      (firstNamed name concepts).or (if c.name = name then some c else none) := by
  rw [firstNamed, List.find?_append, firstNamed]
  congr 1
  by_cases h : c.name = name <;> simp [h]

theorem firstNamed_concat_of_mem {name : String} {concepts : List Concept} (c : Concept)
    (h : name ∈ concepts.map (·.name)) :
    firstNamed name (concepts ++ [c]) = firstNamed name concepts := by
  obtain ⟨first, hf⟩ := Option.ne_none_iff_exists'.mp fun hn => firstNamed_eq_none_iff.mp hn h
  rw [firstNamed_concat, hf, Option.some_or]

theorem mem_of_mem_redefinitions {concepts : List Concept} {first c : Concept}
    (h : (first, c) ∈ redefinitions concepts) : c ∈ concepts := by
  obtain ⟨⟨c', i⟩, hm, hf⟩ := List.mem_filterMap.mp h
  obtain ⟨_, -, he⟩ := Option.map_eq_some_iff.mp hf
  cases he
  exact List.fst_mem_of_mem_zipIdx hm

/-- A redefinition follows the first concept of its name among all. -/
theorem firstNamed_of_mem_redefinitions {concepts : List Concept} {first c : Concept}
    (h : (first, c) ∈ redefinitions concepts) : firstNamed c.name concepts = some first := by
  obtain ⟨⟨_, i⟩, _, hf⟩ := List.mem_filterMap.mp h
  obtain ⟨_, hf, he⟩ := Option.map_eq_some_iff.mp hf
  cases he
  exact (List.take_prefix i concepts).find?_eq_some hf

theorem redefinitions_concat (concepts : List Concept) (c : Concept) :
    redefinitions (concepts ++ [c]) =
      redefinitions concepts ++ ((firstNamed c.name concepts).map (·, c)).toList := by
  have hpre : ∀ e ∈ concepts.zipIdx,
      (firstNamed e.1.name ((concepts ++ [c]).take e.2)).map (·, e.1) =
        (firstNamed e.1.name (concepts.take e.2)).map (·, e.1) := by
    intro e he
    have := List.snd_lt_of_mem_zipIdx he
    rw [List.take_append_of_le_length (by omega)]
  rw [redefinitions, List.zipIdx_append, List.filterMap_append, List.filterMap_congr hpre]
  congr 1
  simp only [List.zipIdx_singleton, Nat.zero_add, List.filterMap_cons, List.filterMap_nil,
    List.take_left]
  cases firstNamed c.name concepts <;> rfl

/-- Each concept is the first of its name or a redefinition. -/
theorem length_redefinitions (concepts : List Concept) :
    (redefinitions concepts).length + (concepts.map (·.name)).eraseDups.length =
      concepts.length := by
  induction concepts using List.reverseRecOn with
  | nil => rfl
  | append_singleton concepts c ih =>
    rw [redefinitions_concat, List.map_append, List.length_append, List.length_append, ← ih]
    cases hf : firstNamed c.name concepts with
    | none =>
      rw [List.map_singleton, eraseDups_concat_of_not_mem (firstNamed_eq_none_iff.mp hf),
        List.length_append, ← Nat.add_assoc]
      rfl
    | some first =>
      rw [List.map_singleton, eraseDups_concat_of_mem (name_mem_of_firstNamed hf)]
      exact Nat.add_right_comm _ _ _

/-- Each concept redefines its name or is the first of it, and none does both. -/
theorem redefinitions_append_first_perm (concepts : List Concept) :
    ((redefinitions concepts).map (·.2) ++ (concepts.map (·.name)).eraseDups.filterMap
      fun name => firstNamed name concepts).Perm concepts := by
  induction concepts using List.reverseRecOn with
  | nil => exact .nil
  | append_singleton concepts c ih =>
    have hold : ((concepts.map (·.name)).eraseDups.filterMap
        fun name => firstNamed name (concepts ++ [c])) =
          (concepts.map (·.name)).eraseDups.filterMap fun name => firstNamed name concepts := by
      apply List.filterMap_congr
      intro name hn
      exact firstNamed_concat_of_mem c (List.mem_eraseDups.mp hn)
    rw [redefinitions_concat, List.map_append, List.map_append]
    cases hf : firstNamed c.name concepts with
    | none =>
      have hn := firstNamed_eq_none_iff.mp hf
      have hc : [c.name].filterMap (fun name => firstNamed name (concepts ++ [c])) = [c] := by
        simp [firstNamed_concat, hf]
      rw [List.map_singleton, eraseDups_concat_of_not_mem hn, List.filterMap_append, hold, hc,
        ← List.append_assoc]
      simpa using ih.append_right [c]
    | some first =>
      rw [List.map_singleton, eraseDups_concat_of_mem (name_mem_of_firstNamed hf), hold,
        List.append_assoc]
      refine (List.perm_append_comm.append_left _).trans ?_
      rw [← List.append_assoc]
      exact ih.append_right [c]

end Concept

namespace Reference

private theorem to_concat (name : String) (references : List Reference) (r : Reference) :
    Reference.to name (references ++ [r]) =
      Reference.to name references ++ if r.name = name then [r] else [] := by
  rw [Reference.to, List.filter_append, Reference.to]
  by_cases h : r.name = name <;> simp [h]

theorem mem_to_iff {name : String} {references : List Reference} {r : Reference} :
    r ∈ Reference.to name references ↔ r ∈ references ∧ r.name = name := by
  simp [Reference.to]

theorem to_eq_nil_iff {name : String} {references : List Reference} :
    Reference.to name references = [] ↔ name ∉ references.map (·.name) := by
  simp [Reference.to]

end Reference

namespace Definitions

/-- What has been collected after some concepts. -/
structure Collected (ds : Definitions) (concepts : List Concept) : Prop where
  wellFormed : ds.index.WellFormed
  keys : ds.index.keys = (concepts.map (·.name)).eraseDups
  get? : ∀ name, ds.index.get? name = Concept.firstNamed name concepts
  duplicates : ds.duplicates.toList =
    (Concept.redefinitions concepts).map fun (first, c) => .duplicateDefinition first c

theorem Collected.mem_keys_iff {ds : Definitions} {concepts : List Concept}
    (h : ds.Collected concepts) {name : String} :
    name ∈ ds.index.keys ↔ name ∈ concepts.map (·.name) := by
  rw [h.keys, List.mem_eraseDups]

/-- Whether a name is collected is whether a concept has it. -/
theorem Collected.contains_iff {ds : Definitions} {concepts : List Concept}
    (h : ds.Collected concepts) {name : String} :
    ds.index.contains name ↔ name ∈ concepts.map (·.name) :=
  (NameIndex.contains_iff h.wellFormed).trans h.mem_keys_iff

theorem Collected.toList {ds : Definitions} {concepts : List Concept} (h : ds.Collected concepts) :
    ds.index.toList = (concepts.map (·.name)).eraseDups.filterMap fun name =>
      (Concept.firstNamed name concepts).map (name, ·) := by
  rw [NameIndex.toList_eq_filterMap h.wellFormed, h.keys]
  simp only [h.get?]

/-- To add a concept is to insert it: if its name is defined, that changes nothing. -/
theorem index_add {ds : Definitions} (h : ds.index.WellFormed) (c : Concept) :
    (ds.add c).index = ds.index.insert c.name c := by
  rw [add]
  cases hf : ds.index.get? c.name with
  | some first =>
    have hm := (NameIndex.get?_eq_some_iff h).mp hf
    exact (NameIndex.insert_of_mem h c (List.mem_map_of_mem hm)).symm
  | none => rfl

private theorem duplicates_add (ds : Definitions) (c : Concept) :
    (ds.add c).duplicates.toList = ds.duplicates.toList ++
      ((ds.index.get? c.name).map (.duplicateDefinition · c)).toList := by
  rw [add]
  cases ds.index.get? c.name with
  | some first => exact Array.toList_push
  | none => exact (List.append_nil _).symm

private theorem Collected.add {ds : Definitions} {concepts : List Concept}
    (h : ds.Collected concepts)
    (c : Concept) : (ds.add c).Collected (concepts ++ [c]) := by
  constructor
  · rw [index_add h.wellFormed]
    exact h.wellFormed.insert c.name c
  · rw [index_add h.wellFormed, NameIndex.keys_insert h.wellFormed, h.keys, List.map_append,
      List.map_singleton, eraseDups_concat]
    simp only [List.mem_eraseDups]
  · intro name
    rw [index_add h.wellFormed, NameIndex.get?_insert h.wellFormed, h.get?,
      Concept.firstNamed_concat]
  · rw [duplicates_add, h.duplicates, h.get?, Concept.redefinitions_concat, List.map_append]
    cases Concept.firstNamed c.name concepts <;> rfl

theorem ofConcepts_concat (concepts : List Concept) (c : Concept) :
    ofConcepts (concepts ++ [c]) = (ofConcepts concepts).add c :=
  List.foldl_concat ..

/-- The definitions of concepts are their first ones, by name. -/
theorem collected_ofConcepts (concepts : List Concept) :
    (ofConcepts concepts).Collected concepts := by
  induction concepts using List.reverseRecOn with
  | nil => exact ⟨NameIndex.wellFormed_empty, rfl, NameIndex.get?_empty, rfl⟩
  | append_singleton concepts c ih =>
    rw [ofConcepts_concat]
    exact ih.add c

end Definitions

namespace NameIndex

/-- An index of references after some references. -/
structure Grouped (index : NameIndex (Array Reference)) (references : List Reference) : Prop where
  wellFormed : index.WellFormed
  keys : index.keys = (references.map (·.name)).eraseDups
  get? : ∀ name ∈ index.keys, index.get? name = some (Reference.to name references).toArray

theorem Grouped.mem_keys_iff {index : NameIndex (Array Reference)} {references : List Reference}
    (h : index.Grouped references) {name : String} :
    name ∈ index.keys ↔ name ∈ references.map (·.name) := by
  rw [h.keys, List.mem_eraseDups]

theorem Grouped.contains_iff {index : NameIndex (Array Reference)} {references : List Reference}
    (h : index.Grouped references) {name : String} :
    index.contains name ↔ name ∈ references.map (·.name) :=
  (NameIndex.contains_iff h.wellFormed).trans h.mem_keys_iff

theorem Grouped.toList {index : NameIndex (Array Reference)} {references : List Reference}
    (h : index.Grouped references) : index.toList = (references.map (·.name)).eraseDups.map
      fun name => (name, (Reference.to name references).toArray) := by
  rw [NameIndex.toList_eq_filterMap h.wellFormed, ← h.keys,
    List.filterMap_eq_map_iff_forall_eq_some]
  intro name hn
  rw [h.get? name hn]
  rfl

private theorem Grouped.get?_or {index : NameIndex (Array Reference)}
    {references : List Reference} (h : index.Grouped references) (name : String) :
    (index.get? name).or (some #[]) = some (Reference.to name references).toArray := by
  by_cases hk : name ∈ index.keys
  · rw [h.get? name hk, Option.some_or]
  · rw [(get?_eq_none_iff h.wellFormed).mpr hk,
      Reference.to_eq_nil_iff.mpr (h.mem_keys_iff.not.mp hk)]
    rfl

/-- To add a reference is to see to it that its name has a list and to extend the list. -/
theorem addReference_eq {index : NameIndex (Array Reference)} (h : index.WellFormed)
    (r : Reference) :
    index.addReference r = (index.insert r.name #[]).modify r.name (·.push r) := by
  rw [addReference]
  by_cases hn : r.name ∈ index.keys
  · rw [if_pos ((contains_iff h).mpr hn), insert_of_mem h _ hn]
  · rw [if_neg fun hc => hn ((contains_iff h).mp hc), modify_insert h _ _ hn]
    rfl

private theorem Grouped.add {index : NameIndex (Array Reference)} {references : List Reference}
    (h : index.Grouped references) (r : Reference) :
    (index.addReference r).Grouped (references ++ [r]) := by
  have hi : (index.insert r.name #[]).WellFormed := h.wellFormed.insert r.name #[]
  rw [addReference_eq h.wellFormed]
  constructor
  · exact hi.modify r.name _
  · rw [keys_modify hi, keys_insert h.wellFormed, h.keys, List.map_append, List.map_singleton,
      eraseDups_concat]
    simp only [List.mem_eraseDups]
  · intro name hk
    rw [get?_modify hi, get?_insert h.wellFormed, Reference.to_concat]
    by_cases he : r.name = name
    · subst he
      simp [h.get?_or]
    · have hn : name ∈ index.keys := by
        rw [keys_modify hi, mem_keys_insert h.wellFormed] at hk
        exact hk.resolve_right (Ne.symm he)
      simp [he, Ne.symm he, h.get? name hn]

theorem grouped_ofReferences (references : List Reference) :
    (ofReferences references).Grouped references := by
  induction references using List.reverseRecOn with
  | nil => exact ⟨wellFormed_empty, rfl, fun name h => absurd h List.not_mem_nil⟩
  | append_singleton references r ih =>
    have hs : ofReferences (references ++ [r]) = (ofReferences references).addReference r :=
      List.foldl_concat ..
    rw [hs]
    exact ih.add r

end NameIndex

end ConceptMarkup
