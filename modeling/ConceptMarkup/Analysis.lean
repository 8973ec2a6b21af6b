import ConceptMarkup.Diagnostic
import ConceptMarkup.Document
import ConceptMarkup.Event
import ConceptMarkup.NameIndex
import ConceptMarkup.Suggestion

/-! The checks of a document. Its definitions and its references are collected by name, the first
definition of a name counting and every reference to it. Reported are names defined again, then
names referenced but not defined, then names defined but not referenced. -/
namespace ConceptMarkup

namespace Diagnostic

def duplicateDefinition (first again : Concept) : Diagnostic :=
  { severity := .error
    message := s!"concept `{again.name}` is already defined"
    range := again.range
    code := some .duplicateDefinition
    notes := [s!"first defined on line {first.nameRange.start.line}, " ++
      s!"redefined on line {again.nameRange.start.line}"] }

def undefinedReference (reference : Reference) (suggestions : List String) : Diagnostic :=
  let d : Diagnostic :=
    { severity := .error
      message := s!"undefined concept `{reference.name}`"
      range := reference.range
      code := some .undefinedReference }
  d.withSuggestions suggestions

def unusedConcept (concept : Concept) : Diagnostic :=
  { severity := .warning
    message := s!"concept `{concept.name}` is never referenced"
    range := concept.range
    code := some .unusedConcept }

end Diagnostic

/-- The definitions met so far, and the errors for names defined again. -/
structure Definitions where
  index : NameIndex Concept := {}
  duplicates : Array Diagnostic := #[]

namespace Definitions

def add (ds : Definitions) (concept : Concept) : Definitions :=
  match ds.index.get? concept.name with
  | some first => { ds with duplicates := ds.duplicates.push (.duplicateDefinition first concept) }
  | none => { ds with index := ds.index.insert concept.name concept }

def ofConcepts (concepts : List Concept) : Definitions := concepts.foldl add {}

end Definitions

def NameIndex.addReference (index : NameIndex (Array Reference)) (r : Reference) :
    NameIndex (Array Reference) :=
  if index.contains r.name then index.modify r.name (·.push r) else index.insert r.name #[r]

def NameIndex.ofReferences (references : List Reference) : NameIndex (Array Reference) :=
  references.foldl addReference {}

/-- The definitions and references of a document by name, and what is wrong with them. -/
structure Analysis where
  definitions : NameIndex Concept
  references : NameIndex (Array Reference)
  diagnostics : List Diagnostic

namespace Analysis

def undefinedReferences (definitions : NameIndex Concept)
    (references : NameIndex (Array Reference)) (options : Options) : List Diagnostic :=
  references.toList.flatMap fun (name, occurrences) =>
    if definitions.contains name then []
    else
      let names := if options.suggestions then suggest name definitions.keys options else []
      occurrences.toList.map fun r => .undefinedReference r names

def unusedConcepts (definitions : NameIndex Concept) (references : NameIndex (Array Reference)) :
    List Diagnostic :=
  definitions.toList.filterMap fun (name, concept) =>
    if references.contains name then none else some (.unusedConcept concept)

def ofDocument (document : Document) (options : Options) : Analysis :=
  let definitions := Definitions.ofConcepts document.concepts
  let references := NameIndex.ofReferences document.references
  let unused :=
    if options.unusedConcepts then unusedConcepts definitions.index references else []
  { definitions := definitions.index
    references := references
    diagnostics := definitions.duplicates.toList ++
      (undefinedReferences definitions.index references options ++ unused) }

def definition? (a : Analysis) (name : String) : Option Concept := a.definitions.get? name

def referencesTo (a : Analysis) (name : String) : List Reference :=
  (a.references.get? name).elim [] Array.toList

def isReferenced (a : Analysis) (name : String) : Bool := a.references.contains name

def hasErrors (a : Analysis) : Bool := a.diagnostics.any (·.isError)

def event (document : Document) (a : Analysis) : Event :=
  .analyzed document.concepts.length a.definitions.size a.references.size a.diagnostics.length

end Analysis

def analyze (document : Document) (options : Options) : List Diagnostic :=
  (Analysis.ofDocument document options).diagnostics

def definitionsOf (document : Document) : List (String × Concept) :=
  (Analysis.ofDocument document {}).definitions.toList

def referencesOf (document : Document) : List (String × List Reference) :=
  (Analysis.ofDocument document {}).references.toList.map fun (name, rs) => (name, rs.toList)

end ConceptMarkup
