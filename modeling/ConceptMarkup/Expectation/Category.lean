import ConceptMarkup.Disk
import ConceptMarkup.Path
import ConceptMarkup.Text.Search

/-! Finding test files and sorting them into categories. The category of a test file is the path of
its directory, seen from the directory in which the search starts. -/
namespace ConceptMarkup

structure FoundTest where
  directories : List String
  name : String
  text : Except Disk.Failure String

namespace FoundTest

def suffix : String := ".test.nlm"

def isTestName (name : String) : Bool := suffix.toList.isSuffixOf name.toList

mutual

def inEntries (directories : List String) : List (String × Disk.Node) → List FoundTest
  | [] => []
  | (name, node) :: entries => inNode directories name node ++ inEntries directories entries

def inNode (directories : List String) (name : String) : Disk.Node → List FoundTest
  | .directory entries => inEntries (directories ++ [name]) entries
  | .file text => if isTestName name then [⟨directories, name, text⟩] else []

end

/-- The category: the directories with slashes between them. A backslash counts as a slash. -/
def category (t : FoundTest) : String :=
  .ofList (("/".intercalate t.directories).toList.map fun c => if c = '\\' then '/' else c)

def parts (t : FoundTest) : List String := t.directories ++ [t.name]

def path (root : String) (t : FoundTest) : String := Path.join root ("/".intercalate t.parts)

end FoundTest

structure Category where
  name : String
  tests : List FoundTest

namespace Category

/-- The categories of tests in order of their names, each with its tests in order of their paths. -/
def ofTests (tests : List FoundTest) : List Category :=
  let names := ((tests.map (·.category)).eraseDups).mergeSort fun a b => a ≤ b
  names.map fun name =>
    ⟨name, (tests.filter (·.category = name)).mergeSort fun a b => !b.parts.lex a.parts⟩

def discover (entries : Disk.Entries) : List Category := ofTests (FoundTest.inEntries [] entries)

def label (name : String) : String := if name.isEmpty then "(root)" else name

def wanted (filter : String) : String :=
  .ofList ((filter.toList.dropWhile (· = '/')).reverse.dropWhile (· = '/')).reverse

/-- Whether a filter selects a category: it names the category or one above it. -/
def selectedBy (filter name : String) : Bool :=
  name = wanted filter || ((wanted filter).toList ++ ['/']).isPrefixOf name.toList

/-- The names that filters select one after another, besides those chosen before, and the filters
that select nothing new. -/
def choose (names chosen : List String) : List String → List String × List String
  | [] => (chosen, [])
  | filter :: filters =>
    let new := names.filter fun name => selectedBy filter name && !chosen.contains name
    let (all, idle) := choose names (chosen ++ new) filters
    (all, if new.isEmpty then filter :: idle else idle)

/-- The categories that a list of filters selects, and the filters to warn of. Without filters all
are selected. -/
def select (all : List Category) (filters : List String) : List Category × List String :=
  if filters.isEmpty then (all, [])
  else
    let (chosen, idle) := choose (all.map (·.name)) [] filters
    (all.filter fun c => chosen.contains c.name, idle)

def warning (all : List Category) (filter : String) : String :=
  let available := ", ".intercalate (all.map fun c => label c.name)
  s!"warning: category '{wanted filter}' not found (available: {available})"

end Category

end ConceptMarkup
