import ConceptMarkup.Document
import ConceptMarkup.Event
import ConceptMarkup.Text.Blank
import ConceptMarkup.Token

/-! From tokens to documents. Each marker opens a section that holds the tokens up to the next
marker, and each section becomes a concept. Parsing never fails: tokens before the first marker are
passed over. -/
namespace ConceptMarkup

/-- The references in a text that begins at `p`. A name holds no at sign, so references do not
overlap. -/
def Reference.allIn (p : Position) : List Char → List Reference
  | [] => []
  | c :: cs =>
    match mentionAt? (c :: cs) with
    | some name =>
      ⟨String.ofList name, p, p.after ('@' :: name)⟩ :: allIn (p.advance c) cs
    | none => allIn (p.advance c) cs

def Prose.ofBody? (p : Position) (body : List Char) : Option Prose :=
  let text := Text.trim body
  if text.isEmpty then none
  else
    let start := p.after (body.takeWhile Text.isBlank)
    some ⟨String.ofList text, Reference.allIn start text, start, start.after text⟩

namespace Token

/-- The tokens before the first marker, and each marker with the tokens that follow it. -/
def sections : List Token → List Token × List (Token × List Token)
  | [] => ([], [])
  | t :: ts =>
    let (leading, rest) := sections ts
    if t.isMarker then ([], (t, leading) :: rest) else (t :: leading, rest)

/-- The body of a section: its tokens without a newline directly after the marker. -/
def body : List Token → List Token
  | [] => []
  | t :: ts => if t.isNewline then ts else t :: ts

/-- The stretch of source that the tokens of a body cover, blanks between them included. -/
def source? (source : List Char) (tokens : List Token) : Option (List Char) := do
  let first ← tokens.head?
  let last ← tokens.getLast?
  Text.slice? first.range.start.offset last.range.stop.offset source

end Token

def Concept.ofSection (source : List Char) (marker : Token) (rest : List Token) : Concept :=
  let tokens := Token.body rest
  let block := do
    let first ← tokens.head?
    Prose.ofBody? first.range.start (← Token.source? source tokens)
  { name := marker.lexeme.value
    nameRange := marker.range
    prose := block.toList
    range := ⟨marker.range.start, block.elim marker.range.stop (·.range.stop)⟩ }

namespace Document

def ofTokens (source : List Char) (tokens : List Token) : Document :=
  let (_, sections) := Token.sections (tokens.takeWhile fun t => !t.isEndOfInput)
  { concepts := sections.map fun (marker, rest) => .ofSection source marker rest
    range := ⟨.start, (tokens.getLast?.map (·.range.stop)).getD .start⟩ }

def parse (source : String) : Document :=
  ofTokens source.toList (tokenize source)

/-- The tokens that belong to no concept: those before the first marker, leading newlines aside. -/
def strays (tokens : List Token) : List Token :=
  (Token.sections (tokens.takeWhile fun t => !t.isEndOfInput)).1.dropWhile (·.isNewline)

def parseEvents (source : String) : List Event :=
  let tokens := tokenize source
  (strays tokens).map (fun t => .stray t.lexeme t.range.start.line) ++
    [.parsed tokens.length (parse source).concepts.length]

end Document

end ConceptMarkup
