import ConceptMarkup.Toml.Value

/-! Typed access to TOML values. A record may be written as a table, or as an array of its fields in
their order. -/
namespace ConceptMarkup.Toml

namespace Value

def toText? : Value → Option String
  | text s => some s
  | _ => none

def toBool? : Value → Option Bool
  | boolean b => some b
  | _ => none

def toNat? : Value → Option Nat
  | integer n => if 0 ≤ n then some n.toNat else none
  | _ => none

def toList? : Value → Option (List Value)
  | array items => some items
  | tables elements => some (elements.map (table .header))
  | _ => none

def toListOf? {α : Type} (v : Value) (read : Value → Option α) : Option (List α) := do
  (← v.toList?).mapM read

end Value

/-- The fields that are present, under the names of a record's fields; `none` if another name is
there. -/
def Entries.record? (names : List String) (es : Entries) : Option Entries :=
  if es.all (·.1 ∈ names) then some es else none

/-- The fields of a record that are present in a value. In an array, fields may be missing at the
end, and what follows the last field does not count. -/
def Value.record? (names : List String) (v : Value) : Option Entries :=
  match v with
  | .table _ es => Entries.record? names es
  | v => v.toList?.map names.zip

def Entries.field? {α : Type} (es : Entries) (name : String) (read : Value → Option α)
    (otherwise : α) : Option α :=
  match es.lookup name with
  | some v => read v
  | none => some otherwise

def Entries.optional? {α : Type} (es : Entries) (name : String) (read : Value → Option α) :
    Option (Option α) :=
  es.field? name (fun v => some <$> read v) none

end ConceptMarkup.Toml
