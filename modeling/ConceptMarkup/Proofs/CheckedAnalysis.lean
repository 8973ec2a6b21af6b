import ConceptMarkup.Proofs.CollectedNames
import ConceptMarkup.Proofs.EditRows

/-! The analysis with every index checked. A name index keeps the place of each name in a list of
entries, and a place beyond the list would end the analysis; so would a character or an entry that
the edit distance misses. The indices of a document send names to entries that are there. -/
namespace ConceptMarkup

private theorem foldlM_eq_some {α β : Type} {step? : β → α → Option β} {step : β → α → β} {init : β}
    (h : ∀ (done : List α) a, step? (done.foldl step init) a = some (step (done.foldl step init) a))
    (l : List α) : l.foldlM step? init = some (l.foldl step init) := by
  induction l using List.reverseRecOn with
  | nil => rfl
  | append_singleton done a ih =>
    rw [List.foldlM_append, ih, List.foldl_append]
    exact congrArg (· >>= some) (h done a)

namespace NameIndex

variable {α : Type}

def lookup? (index : NameIndex α) (name : String) : Option (Option α) :=
  match index.positions[name]? with
  | none => some none
  | some i => index.entries[i]?.map fun entry => some entry.2

theorem lookup?_eq {index : NameIndex α} (h : index.WellFormed) (name : String) :
    index.lookup? name = some (index.get? name) := by
  cases hi : index.positions[name]? with
  | none => simp [lookup?, get?, hi]
  | some i =>
    have hk := (h name i).mp hi
    rw [getElem?_keys, Option.map_eq_some_iff] at hk
    obtain ⟨entry, he, -⟩ := hk
    simp [lookup?, get?, hi, he]

def addReference? (index : NameIndex (Array Reference)) (r : Reference) :
    Option (NameIndex (Array Reference)) := do
  match ← index.lookup? r.name with
  | some _ => some (index.modify r.name (·.push r))
  | none => some (index.insert r.name #[r])

def ofReferences? (references : List Reference) : Option (NameIndex (Array Reference)) :=
  references.foldlM addReference? {}

private theorem addReference?_eq {index : NameIndex (Array Reference)} (h : index.WellFormed)
    (r : Reference) : index.addReference? r = some (index.addReference r) := by
  rw [addReference?, lookup?_eq h, addReference]
  by_cases hc : index.contains r.name
  · obtain ⟨value, hv⟩ := exists_get?_of_mem h ((contains_iff h).mp hc)
    rw [if_pos hc, hv]
    rfl
  · rw [if_neg hc, (get?_eq_none_iff h).mpr fun hk => hc ((contains_iff h).mpr hk)]
    rfl

private theorem ofReferences?_eq (references : List Reference) :
    ofReferences? references = some (ofReferences references) :=
  foldlM_eq_some (fun done r => addReference?_eq (grouped_ofReferences done).wellFormed r)
    references

end NameIndex

namespace Definitions

def add? (ds : Definitions) (concept : Concept) : Option Definitions := do
  match ← ds.index.lookup? concept.name with
  | some first =>
    some { ds with duplicates := ds.duplicates.push (.duplicateDefinition first concept) }
  | none => some { ds with index := ds.index.insert concept.name concept }

def ofConcepts? (concepts : List Concept) : Option Definitions := concepts.foldlM add? {}

private theorem add?_eq {ds : Definitions} (h : ds.index.WellFormed) (concept : Concept) :
    ds.add? concept = some (ds.add concept) := by
  rw [add?, NameIndex.lookup?_eq h, add]
  cases ds.index.get? concept.name <;> rfl

private theorem ofConcepts?_eq (concepts : List Concept) :
    ofConcepts? concepts = some (ofConcepts concepts) :=
  foldlM_eq_some (fun done c => add?_eq (collected_ofConcepts done).wellFormed c) concepts

end Definitions

/-- The candidates to offer for a name, by distances computed in rows. -/
def suggest? (name : String) (candidates : List String) (options : Options) :
    Option (List String) := do
  let ranked ← candidates.mapM fun c => do
    let distance ← EditDistance.distance? (Text.lowercase name).toList (Text.lowercase c).toList
    some (distance, c)
  let close := ranked.filter fun r => r.1 ≤ suggestionBound name options
  some (((close.mergeSort fun a b => a.1 ≤ b.1).take options.maxSuggestions).map (·.2))

private theorem suggest?_eq (name : String) (candidates : List String) (options : Options) :
    suggest? name candidates options = some (suggest name candidates options) := by
  have hr : (candidates.mapM fun c => do
      let distance ← EditDistance.distance? (Text.lowercase name).toList (Text.lowercase c).toList
      some (distance, c)) = some (candidates.map fun c => (nameDistance name c, c)) := by
    simp only [EditDistance.distance?_eq, Option.bind_eq_bind, Option.bind_some]
    exact List.mapM_pure
  rw [suggest?, hr]
  rfl

namespace Analysis

def undefinedErrors? (definitions : NameIndex Concept) (options : Options) (name : String)
    (occurrences : Array Reference) : Option (List Diagnostic) :=
  if definitions.contains name then some []
  else
    (if options.suggestions then suggest? name definitions.keys options else some []).map
      fun names => occurrences.toList.map fun r => .undefinedReference r names

def undefinedReferences? (definitions : NameIndex Concept)
    (references : NameIndex (Array Reference)) (options : Options) : Option (List Diagnostic) :=
  (references.toList.mapM fun (name, occurrences) =>
    undefinedErrors? definitions options name occurrences).map List.flatten

def ofDocument? (document : Document) (options : Options) : Option Analysis := do
  let definitions ← Definitions.ofConcepts? document.concepts
  let references ← NameIndex.ofReferences? document.references
  let undefined ← undefinedReferences? definitions.index references options
  let unused :=
    if options.unusedConcepts then unusedConcepts definitions.index references else []
  some
    { definitions := definitions.index
      references := references
      diagnostics := definitions.duplicates.toList ++ (undefined ++ unused) }

private theorem undefinedErrors?_eq (definitions : NameIndex Concept) (options : Options)
    (name : String)
    (occurrences : Array Reference) : undefinedErrors? definitions options name occurrences =
      some (if definitions.contains name then []
        else
          let names := if options.suggestions then suggest name definitions.keys options else []
          occurrences.toList.map fun r => .undefinedReference r names) := by
  rw [undefinedErrors?, suggest?_eq]
  split
  · rfl
  · split <;> rfl

private theorem undefinedReferences?_eq (definitions : NameIndex Concept)
    (references : NameIndex (Array Reference)) (options : Options) :
    undefinedReferences? definitions references options =
      some (undefinedReferences definitions references options) := by
  rw [undefinedReferences?, undefinedReferences, List.flatMap_def]
  simp only [undefinedErrors?_eq]
  exact congrArg (Option.map List.flatten) List.mapM_pure

theorem ofDocument?_eq (document : Document) (options : Options) :
    ofDocument? document options = some (ofDocument document options) := by
  simp only [ofDocument?, Definitions.ofConcepts?_eq, NameIndex.ofReferences?_eq,
    undefinedReferences?_eq, Option.bind_eq_bind, Option.bind_some]
  rfl

end Analysis

end ConceptMarkup
