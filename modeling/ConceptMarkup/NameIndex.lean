import Std.Data.HashMap

/-! A map from names to values that remembers the order in which names were first inserted. The
entries stand in an array, and a hash map holds the place of each name. -/
namespace ConceptMarkup

/-- Values by name, in order of first insertion. -/
structure NameIndex (α : Type) where
  entries : Array (String × α) := #[]
  positions : Std.HashMap String Nat := ∅

namespace NameIndex

variable {α : Type}

def contains (index : NameIndex α) (name : String) : Bool := index.positions.contains name

/-- Gives a new name its value. A name that is present keeps the value it has. -/
def insert (index : NameIndex α) (name : String) (value : α) : NameIndex α :=
  if index.contains name then index
  else
    { entries := index.entries.push (name, value)
      positions := index.positions.insert name index.entries.size }

def get? (index : NameIndex α) (name : String) : Option α := do
  let i ← index.positions[name]?
  let entry ← index.entries[i]?
  some entry.2

/-- Changes the value of a name; without effect if the name is absent. -/
def modify (index : NameIndex α) (name : String) (f : α → α) : NameIndex α :=
  match index.positions[name]? with
  | none => index
  | some i => { index with entries := index.entries.modify i fun (n, value) => (n, f value) }

def size (index : NameIndex α) : Nat := index.entries.size

def toList (index : NameIndex α) : List (String × α) := index.entries.toList

def keys (index : NameIndex α) : List String := index.toList.map (·.1)

def values (index : NameIndex α) : List α := index.toList.map (·.2)

end NameIndex

end ConceptMarkup
