import ConceptMarkup.Toml.Scalar
import ConceptMarkup.Toml.Table

/-! Reading TOML documents. A text is read into its bindings and sections first, and these are then
put together. -/
namespace ConceptMarkup.Toml

open Reader

def filling : Reader Unit := do
  let _ ← many ((do let _ ← run1 isSpace) <|> newline <|> comment *> newline)

def splitKey (parts : List String) : Reader (List String × String) :=
  match parts.getLast? with
  | some last => return (parts.dropLast, last)
  | none => failure

def binding (value : Reader Value) : Reader Binding := do
  let (path, last) ← splitKey (← key)
  char '='
  spaces
  return ⟨path, last, ← value⟩

def array (value : Reader Value) : Reader Value := do
  char '['
  let items ← maybe (sepBy1 (filling *> value <* filling) (char ','))
  if items.isSome then
    let _ ← maybe (char ',')
  filling
  char ']'
  return .array (items.getD [])

def inlineTable (value : Reader Value) : Reader Value := do
  char '{'
  let bindings ← maybe (sepBy1 (binding value <* spaces) (char ','))
  spaces
  char '}'
  match Binding.addAll (bindings.getD []) .braces [] with
  | some entries => return .table .braces entries
  | none => failure

def value : Nat → Reader Value
  | 0 => scalar
  | depth + 1 => scalar <|> array (value depth) <|> inlineTable (value depth)

def bindingLine : Reader Binding := binding (value (depthLimit - 1)) <* lineEnd

def emptyLine : Reader Unit := newline <|> comment *> (newline <|> atEnd)

def bindingLines : Reader (List Binding) := do
  let lines ← many ((emptyLine *> pure none <|> some <$> bindingLine) <* spaces)
  return lines.filterMap id

def tableSection : Reader Section := do
  char '['
  let repeated ← Option.isSome <$> maybe (char '[')
  let (path, last) ← splitKey (← key)
  char ']'
  if repeated then char ']'
  lineEnd
  spaces
  return ⟨repeated, path, last, ← bindingLines⟩

def sections : Reader (List Binding × List Section) := do
  let _ ← maybe (char '\ufeff')
  spaces
  let top ← bindingLines
  let rest ← many tableSection
  atEnd
  return (top, rest)

def read? (text : String) : Option Entries := do
  let ((top, rest), _) ← sections text.toList
  let entries ← Binding.addAll top .header []
  rest.foldlM (fun es s => s.addTo es) entries

end ConceptMarkup.Toml
