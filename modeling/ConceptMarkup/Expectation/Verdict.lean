import ConceptMarkup.Disk
import ConceptMarkup.Expectation.TestFile
import ConceptMarkup.Store

/-! Whether the check of a test's markup finds what the test expects, and the first thing that
differs if not. -/
namespace ConceptMarkup

/-- Why a test fails. Diagnostics are numbered from 0. -/
inductive Mismatch where
  | unreadable (failure : Disk.Failure)
  | malformed (error : TestFile.FormatError)
  | concepts (expected actual : List String)
  | count (expected : Nat) (actual : List Diagnostic)
  | unknownCode (index : Nat) (code : String)
  | code (index : Nat) (expected : Code) (actual : Diagnostic)
  | text (index : Nat) (expected : String) (actual : Diagnostic)
  | line (index expected actual : Nat)
deriving DecidableEq, Repr

def Mismatch.message : Mismatch → String
  | unreadable failure => s!"cannot read file: {failure.message}"
  | malformed error => s!"frontmatter error: {error.message}"
  | concepts expected actual =>
    let expected := ", ".intercalate expected
    let actual := ", ".intercalate actual
    s!"concept mismatch\n  expected: {expected}\n  actual:   {actual}"
  | count expected actual =>
    let listing :=
      if actual.isEmpty then "    (none)"
      else "\n".intercalate (actual.map fun d => "    - " ++ d.display)
    s!"expected {expected} diagnostic(s), got {actual.length}\n  actual diagnostics:\n{listing}"
  | unknownCode index name => s!"diagnostic[{index}]: unknown code \"{name}\" in expectations"
  | code index expected actual =>
    s!"diagnostic[{index}]: expected code {expected.name}, got: {actual.display}"
  | text index expected actual =>
    s!"diagnostic[{index}]: expected text \"{expected}\", got: {actual.display}"
  | line index expected actual =>
    s!"diagnostic[{index}]: expected on line {expected}, but starts on line {actual}"

def Diagnostic.mentions (d : Diagnostic) (needle : String) : Bool :=
  (d.message :: d.notes).any fun s => Text.holds needle.toList s.toList

/-- What differs between an expected diagnostic and the actual one. Of several things the first
counts: the code, then the text, then the line. -/
def ExpectedDiagnostic.mismatch? (e : ExpectedDiagnostic) (index : Nat) (d : Diagnostic) :
    Option Mismatch :=
  match Code.ofName? e.code with
  | none => some (.unknownCode index e.code)
  | some code =>
    if d.code ≠ some code then some (.code index code d)
    else
      match e.contains.filter (!d.mentions ·), e.line.filter (d.range.start.line ≠ ·) with
      | some needle, _ => some (.text index needle d)
      | none, some line => some (.line index line d.range.start.line)
      | none, none => none

def diagnosticsMismatch? (actual : List Diagnostic) (expected : List ExpectedDiagnostic) :
    Option Mismatch :=
  if actual.length ≠ expected.length then some (.count expected.length actual)
  else (actual.zip expected).zipIdx.findSome? fun ((d, e), index) => e.mismatch? index d

/-- What differs between what is expected of a document and what is found: the concepts, or else the
diagnostics. -/
def Expectation.mismatch? (e : Expectation) (d : AnalyzedDocument) : Option Mismatch :=
  match e.concepts.filter (· ≠ d.document.names) with
  | some names => some (.concepts names d.document.names)
  | none => e.diagnostics.bind (diagnosticsMismatch? d.diagnostics)

structure TestResult where
  path : String
  description : Option String
  /-- Absent if the test passes. -/
  mismatch : Option Mismatch
deriving DecidableEq, Repr

namespace TestResult

def passed (r : TestResult) : Bool := r.mismatch.isNone

def ofFile (path : String) (text : Except Disk.Failure String) (options : Options) : TestResult :=
  match text with
  | .error failure => ⟨path, none, some (.unreadable failure)⟩
  | .ok content =>
    match TestFile.read content with
    | .error e => ⟨path, none, some (.malformed e)⟩
    | .ok (expectation, source) =>
      let d := AnalyzedDocument.ofSource source (expectation.options.getD options)
      ⟨path, expectation.description, expectation.mismatch? d⟩

/-- What running a test reports. A test that cannot be read or taken apart reports nothing. -/
def events (path : String) (text : Except Disk.Failure String) (options : Options) : List Event :=
  match text.toOption.bind fun content => (TestFile.read content).toOption with
  | none => []
  | some (expectation, source) =>
    let options := expectation.options.getD options
    let d := AnalyzedDocument.ofSource source options
    AnalyzedDocument.events source options ++ [.ranTest path d.diagnostics.length]

end TestResult

end ConceptMarkup
