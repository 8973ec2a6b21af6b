import ConceptMarkup.Analysis
import ConceptMarkup.Parse
import ConceptMarkup.Path

/-! Open documents by path. Each document is kept with its parse and its diagnostics, which are made
anew with every change. -/
namespace ConceptMarkup

structure AnalyzedDocument where
  source : String
  document : Document
  diagnostics : List Diagnostic
deriving DecidableEq, Repr

namespace AnalyzedDocument

def ofSource (source : String) (options : Options) : AnalyzedDocument :=
  let document := Document.parse source
  ⟨source, document, analyze document options⟩

def hasErrors (d : AnalyzedDocument) : Bool := d.diagnostics.any (·.isError)

def events (source : String) (options : Options) : List Event :=
  let document := Document.parse source
  Document.parseEvents source ++ [(Analysis.ofDocument document options).event document]

end AnalyzedDocument

/-- The open documents. Paths that have the same components name the same document. -/
structure Store where
  options : Options := {}
  documents : Std.HashMap (List Component) AnalyzedDocument := ∅

namespace Store

def ofOptions (options : Options) : Store := { options }

/-- Gives a path a new text, opening it if it is not open. Yields the new document, too. -/
def update (s : Store) (path source : String) : AnalyzedDocument × Store :=
  let d := AnalyzedDocument.ofSource source s.options
  (d, { s with documents := s.documents.insert (Path.components path) d })

def openPath (s : Store) (path source : String) : AnalyzedDocument × Store :=
  s.update path source

def get? (s : Store) (path : String) : Option AnalyzedDocument :=
  s.documents[Path.components path]?

/-- Forgets the document of a path. Yields the document that was open there, if any. -/
def close (s : Store) (path : String) : Option AnalyzedDocument × Store :=
  (s.get? path, { s with documents := s.documents.erase (Path.components path) })

def size (s : Store) : Nat := s.documents.size

def isEmpty (s : Store) : Bool := s.documents.isEmpty

def updateEvents (s : Store) (path source : String) : List Event :=
  let d := AnalyzedDocument.ofSource source s.options
  AnalyzedDocument.events source s.options ++
    [.reanalyzed path d.document.concepts.length d.diagnostics.length]

end Store

end ConceptMarkup
