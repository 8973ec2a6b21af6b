import ConceptMarkup.CommandLine.Invocation
import ConceptMarkup.Document.Dump
import ConceptMarkup.Expectation.Suite
import ConceptMarkup.Report

/-! Running a command line on a disk. Nothing is written: the outcome holds what is to be printed.
-/
namespace ConceptMarkup

/-- Why nothing could be checked. What is wrong with the markup itself is a diagnostic and none of
these. -/
inductive EnvironmentError where
  | readSource (path : String) (failure : Disk.Failure)
  | readConfig (path : String) (failure : Disk.Failure)
  | invalidConfig (path : String)
deriving DecidableEq, Repr

def EnvironmentError.message : EnvironmentError → String
  | readSource path failure => s!"cannot read '{path}': {failure.message}"
  | readConfig path failure => s!"cannot read config '{path}': {failure.message}"
  | invalidConfig path => s!"invalid config '{path}'"

structure CheckOutcome where
  exitCode : Nat
  output : String
  /-- What is drawn under the source lines, after the output. -/
  findings : List Diagnostic
  /-- What is said at the end, unless the check is quiet or reports to a program. -/
  closing : Option String
deriving DecidableEq, Repr

inductive Outcome where
  | checked (outcome : CheckOutcome)
  | tested (outcome : SuiteOutcome)
deriving DecidableEq, Repr

/-- The text without one byte order mark at its start. -/
def dropByteOrderMark (text : String) : String :=
  match text.toList with
  | '\ufeff' :: cs => .ofList cs
  | _ => text

def Concept.listing (c : Concept) : String :=
  s!"{c.nameRange.start.line}:{c.nameRange.start.column} @{c.name}"

def checkText (request : CommandLine.CheckRequest) (text : String) (options : Options) :
    CheckOutcome :=
  let d := AnalyzedDocument.ofSource (dropByteOrderMark text) options
  let exitCode := if d.hasErrors then 1 else 0
  if request.quiet then ⟨exitCode, "", [], none⟩
  else if request.json then
    ⟨exitCode, jsonReport request.file d.document d.diagnostics ++ "\n", [], none⟩
  else
    let tree := if request.ast then [d.document.dump] else []
    let listing := if request.listConcepts then d.document.concepts.map (·.listing) else []
    let closing :=
      if d.diagnostics.isEmpty then s!"ok: {request.file} has no problems"
      else s!"{request.file}: {Diagnostic.tally d.diagnostics}"
    ⟨exitCode, unlines (tree ++ listing), d.diagnostics, some closing⟩

def checkEvents (file text : String) (options : Options) : List Event :=
  let source := dropByteOrderMark text
  let d := AnalyzedDocument.ofSource source options
  AnalyzedDocument.events source options ++
    [.checked file d.document.concepts.length d.diagnostics.length]

namespace CommandLine

/-- The configuration file that is read if no other is named and it is there. -/
def defaultConfig : String := "nlm.toml"

def configPath? (disk : Disk) (named : Option String) : Option String :=
  named <|> if disk.isFile defaultConfig then some defaultConfig else none

def loadOptions (disk : Disk) (named : Option String) : Except EnvironmentError Options :=
  match configPath? disk named with
  | none => .ok {}
  | some path =>
    match disk.readText path with
    | .error failure => .error (.readConfig path failure)
    | .ok text => (Options.ofConfig? text).elim (.error (.invalidConfig path)) .ok

def loadEvents (disk : Disk) (named : Option String) : List Event :=
  match configPath? disk named with
  | none => [.configMissing]
  | some path =>
    match loadOptions disk named with
    | .ok options => [.configLoaded path options]
    | .error _ => []

namespace Invocation

def runWith (i : Invocation) (disk : Disk) (options : Options) :
    Except EnvironmentError Outcome :=
  match i.request with
  | .check request =>
    match disk.readText request.file with
    | .error failure => .error (.readSource request.file failure)
    | .ok text => .ok (.checked (checkText request text options))
  | .test request =>
    .ok <| .tested <|
      if request.listCategories then ⟨0, Suite.listCategories disk request.path⟩
      else Suite.run disk request.path i.color request.categories options

def eventsWith (i : Invocation) (disk : Disk) (options : Options) : List Event :=
  match i.request with
  | .check request =>
    match disk.readText request.file with
    | .error _ => []
    | .ok text => checkEvents request.file text options
  | .test request =>
    if request.listCategories then []
    else Suite.events disk request.path request.categories options

/-- The outcome of a command line. The configuration is read before anything else. -/
def run (i : Invocation) (disk : Disk) : Except EnvironmentError Outcome := do
  i.runWith disk (← loadOptions disk i.config)

def events (i : Invocation) (disk : Disk) : List Event :=
  loadEvents disk i.config ++
    match loadOptions disk i.config with
    | .ok options => i.eventsWith disk options
    | .error _ => []

end Invocation

end CommandLine

end ConceptMarkup
