import ConceptMarkup.Position

/-! Parsed documents. A concept is introduced by a marker and owns the prose up to the next marker;
inside prose, mentions refer to concepts. -/
namespace ConceptMarkup

/-- A mention in prose: a use of a concept, whether or not the concept is defined. Its range covers
the at sign and the name. -/
structure Reference where
  name : String
  range : Range
deriving DecidableEq, Repr

structure Prose where
  text : String
  references : List Reference
  range : Range
deriving DecidableEq, Repr

/-- A concept with its prose. A parsed concept has one block, or none if its body is blank. -/
structure Concept where
  name : String
  nameRange : Range
  prose : List Prose
  /-- From the marker to the end of the last block. -/
  range : Range
deriving DecidableEq, Repr

def Concept.references (c : Concept) : List Reference := c.prose.flatMap (·.references)

def Concept.text (c : Concept) : String := "\n\n".intercalate (c.prose.map (·.text))

/-- The concepts of a source text, in order; names may repeat. -/
structure Document where
  concepts : List Concept
  range : Range
deriving DecidableEq, Repr

namespace Document

def isEmpty (d : Document) : Bool := d.concepts.isEmpty

def references (d : Document) : List Reference := d.concepts.flatMap (·.references)

def names (d : Document) : List String := d.concepts.map (·.name)

end Document

end ConceptMarkup
