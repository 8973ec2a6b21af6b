/-! The lines of a text that is shown to a reader: a line ends with a line feed, or with a carriage
return and a line feed, and the last line may lack its end. -/
namespace ConceptMarkup.Text

def dropReturn (cs : List Char) : List Char :=
  if cs.getLast? = some '\r' then cs.dropLast else cs

/-- The lines of a text without their ends. Only a carriage return directly before a line feed
belongs to an end, and nothing follows the last end. -/
def lines (cs : List Char) : List (List Char) :=
  ended (cs.splitOn '\n')
where
  ended : List (List Char) → List (List Char)
    | [] => []
    | [last] => if last.isEmpty then [] else [last]
    | line :: rest => dropReturn line :: ended rest

end ConceptMarkup.Text
