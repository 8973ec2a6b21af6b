import ConceptMarkup.Diagnostic
import ConceptMarkup.LineIndex

/-! Places and diagnostics as the language server protocol writes them. There lines and characters
count from 0 and a character is a UTF-16 unit, so that the source is needed to convert either way.
-/
namespace ConceptMarkup.Protocol

structure Point where
  line : UInt32
  character : UInt32
deriving DecidableEq, Repr

structure Span where
  start : Point
  stop : Point
deriving DecidableEq, Repr

/-- The part of the source before a byte offset, if it ends on the given line. -/
def beforeOnLine? (source : List Char) (line offset : Nat) : Option (List Char) := do
  let (before, _) ← Text.splitBytes? offset source
  if before.count '\n' + 1 = line then some before else none

def lastLine (cs : List Char) : List Char := (cs.reverse.takeWhile (· ≠ '\n')).reverse

/-- The units before a column of a line. Beyond the last line, a column counts as one unit. -/
def unitsBeforeColumn (source : List Char) (line column : Nat) : Nat :=
  let start := if line = 0 then some 0 else (LineIndex.ofText source).lineStart? line
  match start.bind fun n => Text.splitBytes? n source with
  | some (_, rest) => Text.unitLength ((rest.takeWhile (· ≠ '\n')).take (column - 1))
  | none => column - 1

/-- A place of the source on the wire. The offset decides on the character if it lies on the line,
and the column if not: the places that an editor makes have no offset. -/
def Point.ofPosition (source : List Char) (p : Position) : Point :=
  let character := match beforeOnLine? source p.line p.offset with
    | some before => Text.unitLength (lastLine before)
    | none => unitsBeforeColumn source p.line p.column
  { line := .ofNatClamp (p.line - 1)
    character := .ofNatClamp character }

def Span.ofRange (source : List Char) (r : Range) : Span :=
  ⟨.ofPosition source r.start, .ofPosition source r.stop⟩

def untilUnits (units : Nat) : List Char → List Char
  | [] => []
  | c :: cs =>
    if c = '\n' || units = 0 then [] else c :: untilUnits (units - Text.units16 c) cs

/-- The place in the source of a place on the wire. A line beyond the last stands for the end of the
source, a character beyond the last for the end of the line. -/
def Point.toPosition (source : List Char) (p : Point) : Position :=
  let index := LineIndex.ofText source
  let start := (index.lineStart? (p.line.toNat + 1)).getD (Text.byteLength source)
  let rest := (Text.splitBytes? start source).elim [] (·.2)
  index.positionAt (start + Text.byteLength (untilUnits p.character.toNat rest))

def severityNumber : Severity → Nat
  | .error => 1
  | .warning => 2
  | .info => 3

inductive Tag where
  | unnecessary
deriving DecidableEq, Repr

structure Message where
  span : Span
  severity : Severity
  code : Option String
  message : String
  tags : List Tag
deriving DecidableEq, Repr

/-- A diagnostic on the wire. Its notes follow its message, each on lines of its own. -/
def Message.ofDiagnostic (source : List Char) (d : Diagnostic) : Message :=
  { span := .ofRange source d.range
    severity := d.severity
    code := d.code.map (·.name)
    message := "\n".intercalate (d.message :: d.notes)
    tags := if d.code = some .unusedConcept then [.unnecessary] else [] }

end ConceptMarkup.Protocol
