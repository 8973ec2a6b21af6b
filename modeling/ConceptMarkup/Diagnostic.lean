import ConceptMarkup.Position

/-! Findings about a document: what they say, where they stand, and how they are shown on a line, in
a tally and as an annotation of the source. -/
namespace ConceptMarkup

/-- How grave a finding is. Only an error blocks further use of a document. -/
inductive Severity where
  | error
  | warning
  | info
deriving DecidableEq, Repr

def Severity.name : Severity → String
  | error => "error"
  | warning => "warning"
  | info => "info"

inductive Code where
  | duplicateDefinition
  | undefinedReference
  | unusedConcept
deriving DecidableEq, Repr

def Code.name : Code → String
  | duplicateDefinition => "duplicate-definition"
  | undefinedReference => "undefined-reference"
  | unusedConcept => "unused-concept"

def Code.ofName? (name : String) : Option Code :=
  [duplicateDefinition, undefinedReference, unusedConcept].find? (·.name = name)

structure Diagnostic where
  severity : Severity
  message : String
  range : Range
  code : Option Code := none
  /-- Names that may have been meant, closest first. -/
  suggestions : List String := []
  notes : List String := []
deriving DecidableEq, Repr

namespace Diagnostic

def isError (d : Diagnostic) : Bool := d.severity = .error

def withCode (d : Diagnostic) (code : Code) : Diagnostic := { d with code := some code }

def withNote (d : Diagnostic) (note : String) : Diagnostic :=
  { d with notes := d.notes ++ [note] }

def suggestionNote (names : List String) : String :=
  let offered := ", ".intercalate (names.map fun name => s!"`{name}`")
  s!"did you mean {offered}?"

/-- Replaces the suggestions and adds a note that offers them, if there are any. -/
def withSuggestions (d : Diagnostic) (names : List String) : Diagnostic :=
  let d := { d with suggestions := names }
  if names.isEmpty then d else d.withNote (suggestionNote names)

def display (d : Diagnostic) : String :=
  let code := d.code.elim "" fun c => s!"[{c.name}]"
  s!"{d.range.start.line}:{d.range.start.column}: {d.severity.name}{code}: {d.message}"

def counted (n : Nat) (noun : String) : String :=
  if n = 1 then s!"{n} {noun}" else s!"{n} {noun}s"

/-- The tally of a list of severities: errors and warnings always, infos if there are any. -/
def tallyOf (severities : List Severity) : String :=
  let errors := counted (severities.count .error) "error"
  let warnings := counted (severities.count .warning) "warning"
  let infos := severities.count .info
  s!"{errors}, {warnings}" ++ if infos = 0 then "" else s!", {infos} info"

def tally (ds : List Diagnostic) : String := tallyOf (ds.map (·.severity))

end Diagnostic

/-- A diagnostic as it is drawn under the source line: a mark on a stretch of bytes. -/
structure Annotation where
  /-- An info is drawn as a note. -/
  severity : Severity
  code : Option String
  message : String
  file : Nat
  span : Nat × Nat
  notes : List String
deriving DecidableEq, Repr

def Diagnostic.annotation (d : Diagnostic) (file : Nat) : Annotation :=
  { severity := d.severity
    code := d.code.map (·.name)
    message := d.message
    file := file
    span := (d.range.start.offset, d.range.stop.offset)
    notes := d.notes }

end ConceptMarkup
