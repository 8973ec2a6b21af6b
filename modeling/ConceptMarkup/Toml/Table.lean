import ConceptMarkup.Toml.Value

/-! Adding to tables. A dotted key may extend only tables that dotted keys or longer headers made,
and no key may be given a value twice. -/
namespace ConceptMarkup.Toml

namespace Entries

def set (key : String) (value : Value) : Entries → Entries
  | [] => [(key, value)]
  | (k, v) :: es => if k = key then (k, value) :: es else (k, v) :: set key value es

/-- Changes the table at the end of a path, making missing tables of the given origin on the way.
The path leads through the last of the tables under one name. A dotted key, unlike a header, may not
lead through a table with a header of its own. -/
def alterAt (made : Origin) (f : Origin → Entries → Option Entries) (origin : Origin) :
    List String → Entries → Option Entries
  | [], es => f origin es
  | key :: path, es =>
    match es.lookup key with
    | none => do
      let inner ← alterAt made f made path []
      some (set key (.table made inner) es)
    | some (.table .braces _) => none
    | some (.table .header inner) =>
      if made = .dotted then none
      else do
        let inner ← alterAt made f .header path inner
        some (set key (.table .header inner) es)
    | some (.table o inner) => do
      let inner ← alterAt made f o path inner
      some (set key (.table o inner) es)
    | some (.tables elements) => do
      let last ← elements.getLast?
      let last ← alterAt made f .header path last
      some (set key (.tables (elements.dropLast ++ [last])) es)
    | some _ => none

end Entries

/-- A line that gives a key its value. `path` holds all parts of the key but the last. -/
structure Binding where
  path : List String
  key : String
  value : Value

def Binding.addTo (b : Binding) (origin : Origin) (es : Entries) : Option Entries :=
  Entries.alterAt .dotted (fun reached es =>
    if (reached = .dotted) = b.path.isEmpty then none
    else if (es.lookup b.key).isSome then none
    else some (Entries.set b.key b.value es)) origin b.path es

def Binding.addAll (bs : List Binding) (origin : Origin) (es : Entries) : Option Entries :=
  bs.foldlM (fun es b => b.addTo origin es) es

structure Section where
  repeated : Bool
  path : List String
  key : String
  bindings : List Binding

/-- Adds a section to a document. A header in single brackets opens a table that is new or so far
only implied, one in double brackets a further table under its name. -/
def Section.addTo (s : Section) (es : Entries) : Option Entries :=
  Entries.alterAt .implied (fun _ parent =>
    match s.repeated, parent.lookup s.key with
    | false, none => do
      let table ← Binding.addAll s.bindings .header []
      some (Entries.set s.key (.table .header table) parent)
    | false, some (.table .implied inner) => do
      let table ← Binding.addAll s.bindings .header inner
      some (Entries.set s.key (.table .header table) parent)
    | true, none => do
      let table ← Binding.addAll s.bindings .header []
      some (Entries.set s.key (.tables [table]) parent)
    | true, some (.tables elements) => do
      let table ← Binding.addAll s.bindings .header []
      some (Entries.set s.key (.tables (elements ++ [table])) parent)
    | _, _ => none) .header s.path es

end ConceptMarkup.Toml
