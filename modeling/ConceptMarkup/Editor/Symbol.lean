import ConceptMarkup.Document

/-! What stands under a cursor, and where else it stands: lookup by place and by name, the
definition to go to, and all uses of a name. -/
namespace ConceptMarkup

inductive Symbol where
  | definition (concept : Concept)
  | reference (reference : Reference)
deriving DecidableEq, Repr

namespace Symbol

def name : Symbol → String
  | definition c => c.name
  | reference r => r.name

/-- The whole range of a definition, or the range of a reference. -/
def range : Symbol → Range
  | definition c => c.range
  | reference r => r.range

def isReference (s : Symbol) : Bool := s matches .reference _

end Symbol

namespace Document

/-- The innermost symbol at a place: the reference there, and otherwise the concept around it. Of
two references that meet at the place, it is the one that starts there. -/
def symbolAt? (d : Document) (p : Position) : Option Symbol := do
  let concept ← d.concepts.find? (p ∈ ·.range)
  match (concept.references.filter (p ∈ ·.range)).getLast? with
  | some r => some (.reference r)
  | none => some (.definition concept)

/-- The first definition of a name; later ones never resolve. -/
def definition? (d : Document) (name : String) : Option Concept :=
  d.concepts.find? (·.name = name)

def referenceCount (d : Document) (name : String) : Nat :=
  d.references.countP (·.name = name)

def markersOf (d : Document) (name : String) : List Range :=
  (d.concepts.filter (·.name = name)).map (·.nameRange)

/-- The ranges of the references to a name in source order, after the markers of its definitions if
these are wanted, too. -/
def usesOf (d : Document) (name : String) (withMarkers : Bool) : List Range :=
  (if withMarkers then d.markersOf name else []) ++
    (d.references.filter (·.name = name)).map (·.range)

def gotoDefinition? (d : Document) (p : Position) : Option Range := do
  let symbol ← d.symbolAt? p
  let concept ← d.definition? symbol.name
  some concept.nameRange

def usesAt (d : Document) (p : Position) (withMarkers : Bool) : List Range :=
  (d.symbolAt? p).elim [] fun symbol => d.usesOf symbol.name withMarkers

end Document

end ConceptMarkup
