import ConceptMarkup.Options
import ConceptMarkup.Token

/-! What the library reports while it works, as data. A log line is rendered from an event and
decides nothing. -/
namespace ConceptMarkup

inductive Event where
  | stray (lexeme : Lexeme) (line : Nat)
  | parsed (tokens concepts : Nat)
  /-- An analysis ended. `concepts` counts repeated names, `defined` and `referenced` do not. -/
  | analyzed (concepts defined referenced diagnostics : Nat)
  | reanalyzed (path : String) (concepts diagnostics : Nat)
  | configMissing
  | configLoaded (path : String) (options : Options)
  | checked (file : String) (concepts diagnostics : Nat)
  | ranTest (path : String) (diagnostics : Nat)
deriving DecidableEq, Repr

inductive Event.Level where
  | trace
  | debug
  | info
deriving DecidableEq, Repr

namespace Event

def level : Event → Level
  | stray .. => .trace
  | checked .. => .info
  | _ => .debug

def message : Event → String
  | stray .. => "skipping content outside any concept"
  | parsed .. => "parsed document"
  | analyzed .. => "analyzed document"
  | reanalyzed .. => "re-analyzed document"
  | configMissing => "no nlm.toml found, using defaults"
  | configLoaded .. => "loaded config"
  | checked .. => "checked"
  | ranTest .. => "ran test file"

end Event

def Lexeme.kindName : Lexeme → String
  | marker _ => "ConceptMarker"
  | text _ => "Text"
  | newline => "Newline"
  | endOfInput => "EndOfInput"

def Options.summary (o : Options) : String :=
  s!"AnalyzerOptions \x7b unused_concepts: {o.unusedConcepts}, suggestions: {o.suggestions}, " ++
  s!"max_suggestions: {o.maxSuggestions}, " ++
  s!"max_suggestion_distance: {o.maxSuggestionDistance} \x7d"

def Event.fields : Event → List (String × String)
  | stray lexeme line => [("kind", lexeme.kindName), ("line", toString line)]
  | parsed tokens concepts => [("tokens", toString tokens), ("concepts", toString concepts)]
  | analyzed concepts defined referenced diagnostics =>
    [("concepts", toString concepts), ("defined", toString defined),
      ("referenced", toString referenced), ("diagnostics", toString diagnostics)]
  | reanalyzed path concepts diagnostics =>
    [("path", path), ("concepts", toString concepts), ("diagnostics", toString diagnostics)]
  | configMissing => []
  | configLoaded path options => [("path", path), ("options", options.summary)]
  | checked file concepts diagnostics =>
    [("file", file), ("concepts", toString concepts), ("diagnostics", toString diagnostics)]
  | ranTest path diagnostics => [("path", path), ("diagnostics", toString diagnostics)]

end ConceptMarkup
