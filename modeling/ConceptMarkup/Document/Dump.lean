import ConceptMarkup.Document
import ConceptMarkup.Text.Quoted

/-! The tree of a document as text for inspection: records with named fields and lists, each field
and item on a line of its own. -/
namespace ConceptMarkup

inductive Dump where
  | atom (text : String)
  | list (items : List Dump)
  | record (name : String) (fields : List (String × Dump))

namespace Dump

def indent (depth : Nat) : String := String.ofList (List.replicate (4 * depth) ' ')

mutual

/-- The text of a tree whose first line is already indented. An empty list stands on one line. -/
def render (depth : Nat) : Dump → String
  | atom text => text
  | list [] => "[]"
  | list items => "[\n" ++ renderItems (depth + 1) items ++ indent depth ++ "]"
  | record name fields =>
    name ++ " \x7b\n" ++ renderFields (depth + 1) fields ++ indent depth ++ "\x7d"

def renderItems (depth : Nat) : List Dump → String
  | [] => ""
  | item :: items => indent depth ++ render depth item ++ ",\n" ++ renderItems depth items

def renderFields (depth : Nat) : List (String × Dump) → String
  | [] => ""
  | (name, value) :: fields =>
    indent depth ++ name ++ ": " ++ render depth value ++ ",\n" ++ renderFields depth fields

end

def ofNat (n : Nat) : Dump := .atom (toString n)

def ofText (s : String) : Dump := .atom (Text.quoted s)

def ofPosition (p : Position) : Dump :=
  .record "Position" [("line", .ofNat p.line), ("column", .ofNat p.column),
    ("offset", .ofNat p.offset)]

def ofRange (r : Range) : Dump :=
  .record "Range" [("start", ofPosition r.start), ("end", ofPosition r.stop)]

def ofReference (r : Reference) : Dump :=
  .record "ConceptReference" [("name", .ofText r.name), ("range", ofRange r.range)]

def ofProse (p : Prose) : Dump :=
  .record "ProseBlock" [("text", .ofText p.text),
    ("references", .list (p.references.map ofReference)), ("range", ofRange p.range)]

def ofConcept (c : Concept) : Dump :=
  .record "ConceptDefinition" [("name", .ofText c.name), ("name_range", ofRange c.nameRange),
    ("prose", .list (c.prose.map ofProse)), ("range", ofRange c.range)]

def ofDocument (d : Document) : Dump :=
  .record "NaturalDocument" [("concepts", .list (d.concepts.map ofConcept)),
    ("range", ofRange d.range)]

end Dump

def Document.dump (d : Document) : String := (Dump.ofDocument d).render 0

end ConceptMarkup
