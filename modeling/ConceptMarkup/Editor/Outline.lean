import ConceptMarkup.Editor.Symbol
import ConceptMarkup.Text.Lines

/-! Lists of concepts for an editor: the outline of a document, with every definition, and the names
that complete a beginning, each once. -/
namespace ConceptMarkup

structure OutlineEntry where
  name : String
  detail : String
  range : Range
  selection : Range
deriving DecidableEq, Repr

structure Completion where
  label : String
  detail : Option String
deriving DecidableEq, Repr

namespace Document

def outline (d : Document) : List OutlineEntry :=
  d.concepts.map fun c =>
    { name := c.name
      detail := s!"{d.referenceCount c.name} reference(s)"
      range := c.range
      selection := c.nameRange }

/-- The concepts whose names are not among those in `seen`, each name once. -/
def firstOfEachName (seen : List String) : List Concept → List Concept
  | [] => []
  | c :: cs =>
    if c.name ∈ seen then firstOfEachName seen cs
    else c :: firstOfEachName (c.name :: seen) cs

def dropAt : List Char → List Char
  | '@' :: cs => cs
  | cs => cs

/-- The defined names that start with what was typed, in definition order and each once. An at sign
before it does not count. -/
def completions (d : Document) (typed : String) : List Completion :=
  let start := dropAt typed.toList
  (firstOfEachName [] (d.concepts.filter fun c => start.isPrefixOf c.name.toList)).map fun c =>
    { label := c.name
      detail := (Text.lines c.text.toList).head?.map String.ofList }

end Document

end ConceptMarkup
