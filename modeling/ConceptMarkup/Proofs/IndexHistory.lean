import Mathlib.Data.List.Induction
import ConceptMarkup.Proofs.CollectedNames

/-! A name index and its history. Whatever is inserted and changed, the entries are those of a list
of names in the order of their first insertions, in which each name has the value inserted first,
with the changes made to it since. The hash map has the place of each entry and no other place. The
indices of an analysis have such histories. -/
namespace ConceptMarkup.NameIndex

variable {α : Type} {index : NameIndex α}

inductive Step (α : Type) where
  | insert (name : String) (value : α)
  /-- Changes the value of a name, if it has one. -/
  | modify (name : String) (f : α → α)

def step (index : NameIndex α) : Step α → NameIndex α
  | .insert name value => index.insert name value
  | .modify name f => index.modify name f

def run (index : NameIndex α) (steps : List (Step α)) : NameIndex α := steps.foldl step index

namespace Step

def inserted? : Step α → Option String
  | insert name _ => some name
  | modify .. => none

/-- What a step makes of the value that a name has: an insertion comes too late to count. -/
def changed (name : String) (value : α) : Step α → α
  | insert .. => value
  | modify other f => if name = other then f value else value

/-- The names in the order of their first insertions, each with the value inserted first, with the
changes made to it since. -/
def entries : List (Step α) → List (String × α)
  | [] => []
  | insert name value :: later =>
    (name, later.foldl (changed name) value) :: (entries later).filter (·.1 ≠ name)
  | modify .. :: later => entries later

private theorem mem_entries_iff {steps : List (Step α)} {name : String} {value : α} :
    (name, value) ∈ entries steps ↔ ∃ earlier first later,
      steps = earlier ++ insert name first :: later ∧
        name ∉ earlier.filterMap inserted? ∧ value = later.foldl (changed name) first := by
  induction steps with
  | nil => simp [entries]
  | cons step steps ih =>
    cases step with
    | insert other given =>
      rw [entries, List.mem_cons, List.mem_filter, ih]
      constructor
      · rintro (he | ⟨⟨earlier, first, later, rfl, hn, hv⟩, hne⟩)
        · cases he
          exact ⟨[], given, steps, rfl, List.not_mem_nil, rfl⟩
        · have hne : name ≠ other := by simpa using hne
          refine ⟨insert other given :: earlier, first, later, rfl, ?_, hv⟩
          simpa [inserted?, hne] using hn
      · rintro ⟨_ | ⟨_, earlier⟩, first, later, he, hn, rfl⟩
        · cases he
          exact .inl rfl
        · cases he
          have hn : name ≠ other ∧ name ∉ earlier.filterMap inserted? := by
            simpa [inserted?] using hn
          exact .inr ⟨⟨earlier, first, later, rfl, hn.2, rfl⟩, by simpa using hn.1⟩
    | modify other f =>
      rw [entries, ih]
      constructor
      · rintro ⟨earlier, first, later, rfl, hn, hv⟩
        exact ⟨modify other f :: earlier, first, later, rfl, hn, hv⟩
      · rintro ⟨_ | ⟨_, earlier⟩, first, later, he, hn, rfl⟩
        · cases he
        · cases he
          exact ⟨earlier, first, later, rfl, hn, rfl⟩

end Step

open Step

private theorem run_cons (index : NameIndex α) (step : Step α) (steps : List (Step α)) :
    index.run (step :: steps) = (index.step step).run steps := rfl

private theorem run_append (index : NameIndex α) (steps more : List (Step α)) :
    index.run (steps ++ more) = (index.run steps).run more :=
  List.foldl_append

private theorem WellFormed.step (h : index.WellFormed) (step : Step α) :
    (index.step step).WellFormed := by
  cases step with
  | insert name value => exact h.insert name value
  | modify name f => exact h.modify name f

private theorem WellFormed.run (h : index.WellFormed) (steps : List (Step α)) :
    (index.run steps).WellFormed := by
  induction steps generalizing index with
  | nil => exact h
  | cons step steps ih => exact ih (h.step step)

private theorem toList_run (h : index.WellFormed) (steps : List (Step α)) :
    (index.run steps).toList =
      (index.toList.map fun (name, value) => (name, steps.foldl (changed name) value)) ++
        (Step.entries steps).filter (·.1 ∉ index.keys) := by
  induction steps generalizing index with
  | nil =>
    rw [Step.entries, List.filter_nil, List.append_nil]
    exact (List.map_id _).symm
  | cons step steps ih =>
    rw [run_cons, ih (h.step step)]
    cases step with
    | insert name value =>
      have hf : (Step.entries steps).filter (·.1 ∉ (index.insert name value).keys) =
          ((Step.entries steps).filter (·.1 ≠ name)).filter (·.1 ∉ index.keys) := by
        rw [List.filter_filter]
        apply List.filter_congr
        rintro ⟨other, _⟩ -
        simp [mem_keys_insert h]
      rw [NameIndex.step, hf, Step.entries]
      by_cases hn : name ∈ index.keys
      · rw [insert_of_mem h value hn, List.filter_cons_of_neg (by simpa using hn)]
        rfl
      · rw [toList_insert h value hn, List.map_append, List.append_assoc,
          List.filter_cons_of_pos (by simpa using hn)]
        rfl
    | modify name f =>
      rw [NameIndex.step, Step.entries, toList_modify h, keys_modify h, List.map_map]
      rfl

private theorem keys_run (steps : List (Step α)) :
    (({} : NameIndex α).run steps).keys = (steps.filterMap inserted?).eraseDups := by
  induction steps using List.reverseRecOn with
  | nil => rfl
  | append_singleton steps step ih =>
    have h := wellFormed_empty.run steps
    rw [run_append, List.filterMap_append, run_cons]
    cases step with
    | insert name value =>
      have hs : [Step.insert name value].filterMap inserted? = [name] := rfl
      rw [NameIndex.step, hs, eraseDups_concat]
      refine (keys_insert h name value).trans ?_
      simp only [ih, List.mem_eraseDups]
    | modify name f =>
      rw [NameIndex.step, List.filterMap_cons_none rfl, List.filterMap_nil, List.append_nil]
      exact (keys_modify h name f).trans ih

/-- An index and its history: what the entries and the places are, and what a query gives. -/
structure Follows (index : NameIndex α) (steps : List (Step α)) : Prop where
  nodup : index.keys.Nodup
  order : index.keys = (steps.filterMap inserted?).eraseDups
  placed : ∀ name, name ∈ index.positions ↔ name ∈ index.keys
  place : ∀ (name : String) (i : Nat),
    index.positions[name]? = some i ↔ ∃ value, index.entries[i]? = some (name, value)
  insert : ∀ name ∈ index.keys, ∀ value, index.insert name value = index
  /-- A value comes from the first insertion of its name and from the changes after that. -/
  held : ∀ name value, index.get? name = some value ↔ ∃ earlier first later,
    steps = earlier ++ .insert name first :: later ∧
      name ∉ earlier.filterMap inserted? ∧ value = later.foldl (changed name) first
  get? : ∀ name, index.get? name = (Step.entries steps).lookup name
  contains : ∀ name, index.contains name = ((Step.entries steps).lookup name).isSome
  size : index.size = (Step.entries steps).length
  keys : index.keys = (Step.entries steps).map (·.1)
  values : index.values = (Step.entries steps).map (·.2)
  toList : index.toList = Step.entries steps
  entries : index.entries = (Step.entries steps).toArray

private theorem follows_run (steps : List (Step α)) :
    (({} : NameIndex α).run steps).Follows steps := by
  have h : (({} : NameIndex α).run steps).WellFormed := wellFormed_empty.run steps
  have hl : (({} : NameIndex α).run steps).toList = Step.entries steps := by
    rw [toList_run wellFormed_empty]
    exact List.filter_eq_self.mpr fun entry _ => rfl
  constructor
  · exact h.nodup
  · exact keys_run steps
  · intro name
    rw [← contains_iff h, Std.HashMap.mem_iff_contains, NameIndex.contains]
  · intro name i
    rw [h, getElem?_keys, Option.map_eq_some_iff]
    constructor
    · rintro ⟨⟨_, value⟩, he, rfl⟩
      exact ⟨value, he⟩
    · rintro ⟨value, he⟩
      exact ⟨_, he, rfl⟩
  · intro name hn value
    exact insert_of_mem h value hn
  · intro name value
    rw [get?_eq_some_iff h, hl, mem_entries_iff]
  · intro name
    rw [get?_eq_lookup h, hl]
  · intro name
    rw [contains_eq_lookup h, hl]
  · rw [← hl, NameIndex.toList, Array.length_toList, NameIndex.size]
  · rw [NameIndex.keys, hl]
  · rw [NameIndex.values, hl]
  · exact hl
  · rw [← hl, NameIndex.toList, Array.toArray_toList]

def Step.definition (c : Concept) : Step Concept := .insert c.name c

/-- The steps that collect an occurrence: its name has a list from now on, which is extended. -/
def Step.occurrence (r : Reference) : List (Step (Array Reference)) :=
  [.insert r.name #[], .modify r.name (·.push r)]

private theorem ofReferences_eq_run (references : List Reference) :
    ofReferences references = run {} (references.flatMap Step.occurrence) := by
  induction references using List.reverseRecOn with
  | nil => rfl
  | append_singleton references r ih =>
    have h : (ofReferences references).WellFormed := ih ▸ wellFormed_empty.run _
    have hs : ofReferences (references ++ [r]) = (ofReferences references).addReference r :=
      List.foldl_concat ..
    rw [hs, addReference_eq h, List.flatMap_append, run_append, ← ih]
    rfl

private theorem index_ofConcepts (concepts : List Concept) :
    (Definitions.ofConcepts concepts).index = run {} (concepts.map Step.definition) := by
  induction concepts using List.reverseRecOn with
  | nil => rfl
  | append_singleton concepts c ih =>
    have h : (Definitions.ofConcepts concepts).index.WellFormed := ih ▸ wellFormed_empty.run _
    rw [Definitions.ofConcepts_concat, Definitions.index_add h, List.map_append, run_append, ← ih]
    rfl

/-- The entries of an index and the places of names stay in step, whatever is inserted and changed,
and what an index tells of its names and values is read off its history. In an analysis each concept
is inserted in one index, and each reference added to the list of its name in another. -/
theorem follows_history :
    (∀ {α : Type} (steps : List (Step α)), (run {} steps).Follows steps) ∧
      ∀ (d : Document) (options : Options),
        (Analysis.ofDocument d options).definitions.Follows (d.concepts.map Step.definition) ∧
          (Analysis.ofDocument d options).references.Follows
            (d.references.flatMap Step.occurrence) := by
  refine ⟨follows_run, fun d options => ⟨?_, ?_⟩⟩
  · change (Definitions.ofConcepts d.concepts).index.Follows _
    rw [index_ofConcepts]
    exact follows_run _
  · change (ofReferences d.references).Follows _
    rw [ofReferences_eq_run]
    exact follows_run _

/-- A change before the first insertion is lost, and so is an insertion after it. -/
example : (run {} [.modify "Cow" (· + 1), .insert "Cat" 1, .insert "Cow" 5,
    .modify "Cat" (· + 1), .insert "Cat" 9] : NameIndex Nat).toList = [("Cat", 2), ("Cow", 5)] := by
  cbv

end ConceptMarkup.NameIndex
