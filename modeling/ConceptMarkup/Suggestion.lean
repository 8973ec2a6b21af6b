import ConceptMarkup.EditDistance
import ConceptMarkup.Options
import ConceptMarkup.Text.Lowercase

/-! Names that may have been meant: the candidates whose edit distance to a name, letter case aside,
is within bounds, closest first. -/
namespace ConceptMarkup

def suggestionBound (name : String) (options : Options) : Nat :=
  min options.maxSuggestionDistance (name.length / 2)

def nameDistance (a b : String) : Nat :=
  editDistance (Text.lowercase a) (Text.lowercase b)

/-- The candidates to offer for `name`, closest first; candidates at one distance keep their
order. -/
def suggest (name : String) (candidates : List String) (options : Options) : List String :=
  let ranked := candidates.map fun c => (nameDistance name c, c)
  let close := ranked.filter fun r => r.1 ≤ suggestionBound name options
  ((close.mergeSort fun a b => a.1 ≤ b.1).take options.maxSuggestions).map (·.2)

end ConceptMarkup
