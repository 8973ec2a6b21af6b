/-! What an analysis reports, beyond the errors that it always reports. -/
namespace ConceptMarkup

structure Options where
  unusedConcepts : Bool := true
  suggestions : Bool := true
  maxSuggestions : Nat := 3
  /-- The greatest edit distance of a suggestion. A name allows at most half its length, too. -/
  maxSuggestionDistance : Nat := 3
deriving DecidableEq, Repr

end ConceptMarkup
