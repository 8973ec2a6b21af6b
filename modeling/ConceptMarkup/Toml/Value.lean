/-! Values of a TOML document. A table remembers how it came about, since that decides whether later
lines may add to it. -/
namespace ConceptMarkup.Toml

inductive Origin where
  | header
  /-- As a step of the path of a longer header. -/
  | implied
  | dotted
  /-- Written in braces, which closes it. -/
  | braces
deriving DecidableEq, Repr

/-- A TOML value. Floats and dates are kept as they are written. -/
inductive Value where
  | text (s : String)
  | integer (n : Int)
  | boolean (b : Bool)
  | float (written : String)
  | date (written : String)
  | array (items : List Value)
  | table (origin : Origin) (entries : List (String × Value))
  /-- Tables under one name, each with a header in double brackets. -/
  | tables (elements : List (List (String × Value)))

abbrev Entries := List (String × Value)

end ConceptMarkup.Toml
