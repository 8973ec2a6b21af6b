/-! The least number of insertions, deletions and substitutions of single characters that turn one
text into another, computed a row at a time: the row of a beginning of the first text holds its
distances to all beginnings of the second. -/
namespace ConceptMarkup.EditDistance

/-- The rest of the next row. `left` is its last entry so far, and the given row starts with the
entries diagonally before and above the next entry. -/
def rowFrom (x : Char) (left : Nat) : List Char → List Nat → List Nat
  | y :: ys, diagonal :: above :: row =>
    let entry := min (min (above + 1) (left + 1)) (diagonal + if x = y then 0 else 1)
    entry :: rowFrom x entry ys (above :: row)
  | _, _ => []

def nextRow (x : Char) (ys : List Char) : List Nat → List Nat
  | [] => []
  | first :: row => (first + 1) :: rowFrom x (first + 1) ys (first :: row)

/-- The row of the text `xs`, of which the first entry is its distance to the empty text. -/
def row (xs ys : List Char) : List Nat :=
  xs.foldl (fun row x => nextRow x ys row) (List.range (ys.length + 1))

end EditDistance

def editDistance (a b : String) : Nat :=
  (EditDistance.row a.toList b.toList).getLast?.getD 0

end ConceptMarkup
