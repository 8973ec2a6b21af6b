/-! Names of concepts in running text. A name is an ASCII capital followed by ASCII letters, digits
and underscores; a mention is an at sign directly followed by a name. -/
namespace ConceptMarkup

def isNameChar (c : Char) : Bool := c.isAlphanum || c = '_'

/-- The name of the mention with which a text begins. The name is as long as it can be. -/
def mentionAt? : List Char → Option (List Char)
  | '@' :: c :: cs => if c.isUpper then some (c :: cs.takeWhile isNameChar) else none
  | _ => none

end ConceptMarkup
