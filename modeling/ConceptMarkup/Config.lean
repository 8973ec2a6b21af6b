import ConceptMarkup.Options
import ConceptMarkup.Toml.Decode
import ConceptMarkup.Toml.Read

/-! Configuration files: TOML documents with a table of options for the analysis. A key that is not
known is refused. -/
namespace ConceptMarkup

/-- The options that a value holds. What is missing has its default. -/
def Options.ofToml? (v : Toml.Value) : Option Options := do
  let fields ← v.record?
    ["unused_concepts", "suggestions", "max_suggestions", "max_suggestion_distance"]
  let d : Options := {}
  some {
    unusedConcepts := ← fields.field? "unused_concepts" (·.toBool?) d.unusedConcepts
    suggestions := ← fields.field? "suggestions" (·.toBool?) d.suggestions
    maxSuggestions := ← fields.field? "max_suggestions" (·.toNat?) d.maxSuggestions
    maxSuggestionDistance :=
      ← fields.field? "max_suggestion_distance" (·.toNat?) d.maxSuggestionDistance }

def Options.ofConfig? (text : String) : Option Options := do
  let fields ← Toml.Entries.record? ["analyzer"] (← Toml.read? text)
  fields.field? "analyzer" Options.ofToml? {}

end ConceptMarkup
