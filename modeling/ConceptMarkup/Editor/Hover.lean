import ConceptMarkup.Editor.Symbol

/-! The note that an editor shows for a reference or a marker, in Markdown. It depends on the name
alone: the text is that of the first definition, and the count covers the whole document. -/
namespace ConceptMarkup

structure Hover where
  range : Range
  contents : String
deriving DecidableEq, Repr

namespace Document

def describe (d : Document) (concept : Concept) : String :=
  let text := concept.text
  let body := if text.isEmpty then "_No description._" else text
  let uses := d.referenceCount concept.name
  let plural := if uses = 1 then "" else "s"
  s!"**@{concept.name}**\n\n{body}\n\n_Referenced {uses} time{plural}._"

/-- The note for what stands at a place. Prose around references has none. -/
def hover? (d : Document) (p : Position) : Option Hover :=
  match d.symbolAt? p with
  | none => none
  | some (.reference r) =>
    some ⟨r.range, (d.definition? r.name).elim s!"Undefined concept `{r.name}`" d.describe⟩
  | some (.definition c) =>
    if p ∈ c.nameRange then some ⟨c.nameRange, d.describe ((d.definition? c.name).getD c)⟩
    else none

end Document

end ConceptMarkup
