import ConceptMarkup.Position

/-! From byte offsets back to places. The index of a text holds the offsets at which its lines
begin; a place is found by counting the lines that begin no later than the offset. -/
namespace ConceptMarkup

/-- A text with the offsets at which its second and later lines begin; the first begins at 0. -/
structure LineIndex where
  text : List Char
  starts : List Nat

namespace LineIndex

/-- The offsets just after the line feeds of a text that itself begins at `offset`. -/
def lineStarts (offset : Nat) : List Char → List Nat
  | [] => []
  | c :: cs =>
    let next := offset + c.utf8Size
    if c = '\n' then next :: lineStarts next cs else lineStarts next cs

def ofText (cs : List Char) : LineIndex := ⟨cs, lineStarts 0 cs⟩

/-- The number of lines. A text that ends with a line feed has an empty last line. -/
def lineCount (index : LineIndex) : Nat := index.starts.length + 1

def lineStart? (index : LineIndex) : Nat → Option Nat
  | 0 => none
  | 1 => some 0
  | n + 2 => index.starts[n]?

def boundary (index : LineIndex) (offset : Nat) : Nat :=
  Text.byteLength (Text.fitting offset index.text)

def lineStartBefore (index : LineIndex) (boundary : Nat) : Nat :=
  (index.starts.takeWhile (· ≤ boundary)).getLast?.getD 0

def linePart? (index : LineIndex) (boundary : Nat) : Option (List Char) :=
  Text.slice? (index.lineStartBefore boundary) boundary index.text

/-- The place of a byte offset. An offset beyond the end stands for the end, one inside a character
for the start of that character. -/
def positionAt (index : LineIndex) (offset : Nat) : Position :=
  let boundary := index.boundary offset
  { line := (index.starts.takeWhile (· ≤ boundary)).length + 1
    column := (index.linePart? boundary).elim 0 List.length + 1
    offset := boundary }

end LineIndex

end ConceptMarkup
