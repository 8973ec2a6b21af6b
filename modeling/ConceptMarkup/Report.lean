import ConceptMarkup.Diagnostic
import ConceptMarkup.Document
import ConceptMarkup.Json

/-! The report of a check for other programs: the file, the names of its concepts and what is wrong
with it. -/
namespace ConceptMarkup

namespace Json

def ofPosition (p : Position) : Json :=
  .object [("line", .number p.line), ("column", .number p.column), ("offset", .number p.offset)]

def ofRange (r : Range) : Json :=
  .object [("start", ofPosition r.start), ("end", ofPosition r.stop)]

def ofTexts (texts : List String) : Json := .array (texts.map .text)

/-- A diagnostic. Empty lists of suggestions and notes are left out. -/
def ofDiagnostic (d : Diagnostic) : Json :=
  let list (key : String) (texts : List String) : List (String × Json) :=
    if texts.isEmpty then [] else [(key, ofTexts texts)]
  .object <|
    [("severity", .text d.severity.name), ("message", .text d.message),
      ("range", ofRange d.range), ("code", d.code.elim .null fun c => .text c.name)] ++
      list "suggestions" d.suggestions ++ list "notes" d.notes

end Json

def jsonReport (file : String) (document : Document) (ds : List Diagnostic) : String :=
  Json.render 0 <| .object
    [("file", .text file), ("concepts", .ofTexts document.names),
      ("diagnostics", .array (ds.map .ofDiagnostic))]

end ConceptMarkup
