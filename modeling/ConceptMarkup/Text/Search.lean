/-! Finding one text inside another. -/
namespace ConceptMarkup.Text

def splitOnce? (mark cs : List Char) : Option (List Char × List Char) :=
  if mark.isPrefixOf cs then some ([], cs.drop mark.length)
  else
    match cs with
    | [] => none
    | c :: cs => (splitOnce? mark cs).map fun (before, after) => (c :: before, after)

def holds (needle cs : List Char) : Bool := (splitOnce? needle cs).isSome

def dropLeading (mark cs : List Char) : List Char :=
  if mark.isPrefixOf cs ∧ mark.length ≠ 0 ∧ mark.length ≤ cs.length then
    dropLeading mark (cs.drop mark.length)
  else cs
termination_by cs.length
decreasing_by simp only [List.length_drop]; omega

def dropTrailing (mark cs : List Char) : List Char :=
  (dropLeading mark.reverse cs.reverse).reverse

end ConceptMarkup.Text
