/-! Classes of characters that are given by a table. The table lists, in rising order, the code
points at which the class starts or ends. -/
namespace ConceptMarkup.Text

/-- A set of characters: those from the first bound up to the second, from the third up to the
fourth, and so on, each second bound itself excluded. -/
structure CharClass where
  bounds : List Nat

namespace CharClass

def within (n : Nat) : List Nat → Bool
  | [] => false
  | b :: bs => if n < b then false else !within n bs

def contains (cls : CharClass) (c : Char) : Bool := within c.toNat cls.bounds

end CharClass

end ConceptMarkup.Text
