import ConceptMarkup.Mention
import ConceptMarkup.Position

/-! The tokens of a text. The only structural signal is a mention at the very start of a line, which
is a marker; all else is text up to the end of its line, or a line feed. Spaces, tabs and carriage
returns at the start of a line belong to no token. -/
namespace ConceptMarkup

inductive Lexeme where
  /-- A mention at the start of a line, by its name. -/
  | marker (name : String)
  | text (content : String)
  | newline
  | endOfInput
deriving DecidableEq, Repr

/-- The text of a lexeme, for a marker without its at sign. -/
def Lexeme.value : Lexeme → String
  | marker name => name
  | text content => content
  | newline => "\n"
  | endOfInput => ""

structure Token where
  lexeme : Lexeme
  range : Range
deriving DecidableEq, Repr

namespace Token

def isMarker (t : Token) : Bool := t.lexeme matches .marker _

def isNewline (t : Token) : Bool := t.lexeme = .newline

def isEndOfInput (t : Token) : Bool := t.lexeme = .endOfInput

def isIndent (c : Char) : Bool := c = ' ' || c = '\t' || c = '\r'

def ofRest (p : Position) (cs : List Char) : List Token :=
  if cs.isEmpty then [] else [⟨.text (String.ofList cs), p, p.after cs⟩]

def ofLine (p : Position) (line : List Char) : List Token :=
  match mentionAt? line with
  | some name =>
    let q := p.after ('@' :: name)
    ⟨.marker (String.ofList name), p, q⟩ :: ofRest q (line.drop (name.length + 1))
  | none => ofRest (p.after (line.takeWhile isIndent)) (line.dropWhile isIndent)

/-- The tokens of lines of which the first begins at `p`. A line feed stands between two lines, and
the end of input after the last. -/
def ofLines (p : Position) : List (List Char) → List Token
  | [] => [⟨.endOfInput, p, p⟩]
  | [line] => ofLine p line ++ [⟨.endOfInput, p.after line, p.after line⟩]
  | line :: rest =>
    let q := p.after line
    ofLine p line ++ ⟨.newline, q, q.advance '\n'⟩ :: ofLines (q.advance '\n') rest

def ofText (cs : List Char) : List Token := ofLines .start (cs.splitOn '\n')

end Token

def tokenize (source : String) : List Token := Token.ofText source.toList

end ConceptMarkup
