import ConceptMarkup.Expectation.Category
import ConceptMarkup.Expectation.Verdict
import ConceptMarkup.Text.Lines

/-! Running test files: one file, or those below a directory by category. The outcome is a
transcript for the terminal and an exit code, which is 0 exactly if some test ran and all passed. -/
namespace ConceptMarkup

structure SuiteOutcome where
  exitCode : Nat
  transcript : String
deriving DecidableEq, Repr

structure Palette where
  color : Bool

def Palette.paint (p : Palette) (code text : String) : String :=
  if p.color then s!"\x1b[{code}m{text}\x1b[0m" else text

def unlines (lines : List String) : String := String.join (lines.map (· ++ "\n"))

namespace TestResult

/-- The name under which a test is listed: its description, or the name of its file. -/
def label (r : TestResult) : String :=
  match r.description, Path.fileName? r.path with
  | some text, _ => text
  | none, some name => .ofList (Text.dropTrailing FoundTest.suffix.toList name.toList)
  | none, none => "?"

def line (palette : Palette) (r : TestResult) : String :=
  let status := if r.passed then palette.paint "32" "PASS" else palette.paint "31" "FAIL"
  s!"  {status}  {r.label}"

def failureLines (r : TestResult) : List String :=
  match r.mismatch with
  | none => []
  | some m =>
    ["", s!"  --- {r.path} ---"] ++
      (Text.lines m.message.toList).map fun line => "  " ++ String.ofList line

end TestResult

namespace Suite

def closing (palette : Palette) (results : List TestResult) : List String :=
  let failures := results.filter (!·.passed)
  let passed := results.length - failures.length
  if failures.isEmpty then
    let status := palette.paint "32" "ok"
    ["", s!"test result: {status}. {passed} passed, 0 failed"]
  else
    let status := palette.paint "31" "FAILED"
    ["", "failures:"] ++ failures.flatMap (·.failureLines) ++
      ["", s!"test result: {status}. {passed} passed, {failures.length} failed " ++
        s!"(of {results.length})"]

def conclude (palette : Palette) (lines : List String) (results : List TestResult) :
    SuiteOutcome :=
  { exitCode := if results.all (·.passed) then 0 else 1
    transcript := unlines (lines ++ closing palette results) }

def nothingFound (path : String) : String := s!"no {FoundTest.suffix} files found in {path}"

def categoryResults (root : String) (options : Options) (c : Category) : List TestResult :=
  c.tests.map fun t => .ofFile (t.path root) t.text options

def categoryLines (palette : Palette) (root : String) (options : Options) (c : Category) :
    List String :=
  ["", palette.paint "1" (Category.label c.name)] ++
    (categoryResults root options c).map (·.line palette)

def runDirectory (palette : Palette) (root : String) (entries : Disk.Entries)
    (filters : List String) (options : Options) : SuiteOutcome :=
  let all := Category.discover entries
  if all.isEmpty then ⟨1, unlines [nothingFound root]⟩
  else
    let (selected, idle) := Category.select all filters
    let warnings := idle.map (Category.warning all)
    if selected.isEmpty then ⟨1, unlines (warnings ++ ["no matching categories found"])⟩
    else
      conclude palette (warnings ++ selected.flatMap (categoryLines palette root options))
        (selected.flatMap (categoryResults root options))

def runFile (palette : Palette) (path : String) (text : Except Disk.Failure String)
    (options : Options) : SuiteOutcome :=
  let result := TestResult.ofFile path text options
  conclude palette [result.line palette] [result]

/-- The run of the tests at a path. Where nothing can be listed there are no tests. -/
def run (disk : Disk) (path : String) (color : Bool) (filters : List String) (options : Options) :
    SuiteOutcome :=
  match disk path with
  | .ok (.file text) => runFile ⟨color⟩ path text options
  | .ok (.directory entries) => runDirectory ⟨color⟩ path entries filters options
  | .error _ => runDirectory ⟨color⟩ path [] filters options

def events (disk : Disk) (path : String) (filters : List String) (options : Options) :
    List Event :=
  match disk path with
  | .ok (.file text) => TestResult.events path text options
  | .ok (.directory entries) =>
    (Category.select (Category.discover entries) filters).1.flatMap fun c =>
      c.tests.flatMap fun t => TestResult.events (t.path path) t.text options
  | .error _ => []

def listCategories (disk : Disk) (path : String) : String :=
  let list (entries : Disk.Entries) : List String :=
    match Category.discover entries with
    | [] => [nothingFound path]
    | all => "available categories:" :: all.map fun c =>
      s!"  {Category.label c.name} ({c.tests.length} tests)"
  unlines <| match disk path with
    | .ok (.file _) => ["(single file, no categories)"]
    | .ok (.directory entries) => list entries
    | .error _ => list []

end Suite

end ConceptMarkup
