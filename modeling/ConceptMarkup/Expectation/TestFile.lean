import ConceptMarkup.Config
import ConceptMarkup.Text.Blank
import ConceptMarkup.Text.Search

/-! Test files: markup with what its check is expected to find. The expectations stand at the top,
in TOML, between two lines that start with three dashes. -/
namespace ConceptMarkup

structure ExpectedDiagnostic where
  code : String
  /-- A text that stands in its message or in one of its notes. -/
  contains : Option String := none
  line : Option Nat := none
deriving DecidableEq, Repr

/-- What a test file expects. What is absent is not compared. -/
structure Expectation where
  description : Option String := none
  concepts : Option (List String) := none
  diagnostics : Option (List ExpectedDiagnostic) := none
  /-- Options of the test's own, in place of those of the project. -/
  options : Option Options := none
deriving DecidableEq, Repr

namespace TestFile

inductive FormatError where
  | missingOpening
  | missingClosing
  | invalidExpectation
deriving DecidableEq, Repr

def FormatError.message : FormatError → String
  | missingOpening => "missing opening --- line"
  | missingClosing => "missing closing --- line"
  | invalidExpectation => "TOML parse error"

/-- The rest of a text that starts with a line feed, with or without a carriage return before it. -/
def afterNewline? : List Char → Option (List Char)
  | '\r' :: '\n' :: cs => some cs
  | '\n' :: cs => some cs
  | _ => none

def afterOpening? : List Char → Option (List Char)
  | '-' :: '-' :: '-' :: cs => afterNewline? cs
  | _ => none

/-- The expectations of a test file and the markup after them. Byte order marks at the start do not
count, nor do the line ends around the two lines of dashes. -/
def split (content : List Char) : Except FormatError (List Char × List Char) :=
  match afterOpening? (content.dropWhile (· = '\ufeff')) with
  | none => .error .missingOpening
  | some body =>
    match Text.splitOnce? ['\n', '-', '-', '-'] body with
    | none => .error .missingClosing
    | some (front, after) =>
      .ok (Text.dropEndWhile (· = '\r') front, (afterNewline? after).getD after)

end TestFile

def ExpectedDiagnostic.ofToml? (v : Toml.Value) : Option ExpectedDiagnostic := do
  let fields ← v.record? ["code", "contains", "line"]
  some {
    code := ← (← fields.lookup "code").toText?
    contains := ← fields.optional? "contains" (·.toText?)
    line := ← fields.optional? "line" (·.toNat?) }

def Expectation.ofToml? (text : String) : Option Expectation := do
  let fields ← Toml.Entries.record?
    ["description", "expect_concepts", "expect_diagnostics", "analyzer"] (← Toml.read? text)
  some {
    description := ← fields.optional? "description" (·.toText?)
    concepts := ← fields.optional? "expect_concepts" (·.toListOf? (·.toText?))
    diagnostics := ←
      fields.optional? "expect_diagnostics" (·.toListOf? ExpectedDiagnostic.ofToml?)
    options := ← fields.optional? "analyzer" Options.ofToml? }

def TestFile.read (content : String) : Except TestFile.FormatError (Expectation × String) := do
  let (front, source) ← TestFile.split content.toList
  match Expectation.ofToml? (.ofList front) with
  | some expectation => .ok (expectation, .ofList source)
  | none => .error .invalidExpectation

end ConceptMarkup
