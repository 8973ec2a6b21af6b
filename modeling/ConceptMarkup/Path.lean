/-! File paths as lists of components. Two spellings that have the same components name the same
place: repeated slashes, a slash at the end and inner single dots do not count, but a dot at the
start does, and two dots are kept. -/
namespace ConceptMarkup

inductive Component where
  | root
  /-- A single dot at the start of a relative path. -/
  | here
  | parent
  | name (text : String)
deriving DecidableEq, Repr, Hashable

namespace Path

def component? (part : List Char) : Option Component :=
  if part.isEmpty || part = ['.'] then none
  else if part = ['.', '.'] then some .parent
  else some (.name (String.ofList part))

def components (path : String) : List Component :=
  let parts := path.toList.splitOn '/'
  let start :=
    if path.toList.head? = some '/' then [.root]
    else if parts.head? = some ['.'] then [.here]
    else []
  start ++ parts.filterMap component?

def fileName? (path : String) : Option String :=
  match (components path).getLast? with
  | some (.name text) => some text
  | _ => none

def join (directory entry : String) : String :=
  if directory.isEmpty || directory.toList.getLast? = some '/' then directory ++ entry
  else directory ++ "/" ++ entry

end Path

end ConceptMarkup
