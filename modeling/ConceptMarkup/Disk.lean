import ConceptMarkup.Path

/-! What paths name. A program that checks files only reads, so that a disk is given by what each
path leads to: a file, a directory with all below it, or a reason why it leads nowhere. What lies
below a directory is named by longer paths, so that how much of it can be read depends on the
spelling of the path to the directory. -/
namespace ConceptMarkup

namespace Disk

inductive Failure where
  | notFound
  /-- A file stands where the path needs a directory. -/
  | notDirectory
  | isDirectory
  | nameTooLong
  | zeroInPath
  | invalidText
  | other (message : String)
deriving DecidableEq, Repr

def Failure.message : Failure → String
  | notFound => "No such file or directory (os error 2)"
  | notDirectory => "Not a directory (os error 20)"
  | isDirectory => "Is a directory (os error 21)"
  | nameTooLong => "File name too long (os error 36)"
  | zeroInPath => "file name contained an unexpected NUL byte"
  | invalidText => "stream did not contain valid UTF-8"
  | other message => message

/-- A file with its text, or why it cannot be read; or a directory with its entries, which stand in
no particular order. -/
inductive Node where
  | file (text : Except Failure String)
  | directory (entries : List (String × Node))

abbrev Entries := List (String × Node)

def textOfBytes (bytes : ByteArray) : Except Failure String :=
  (String.fromUTF8? bytes).elim (.error .invalidText) .ok

end Disk

abbrev Disk := String → Except Disk.Failure Disk.Node

namespace Disk

def readText (disk : Disk) (path : String) : Except Failure String := do
  match ← disk path with
  | .file text => text
  | .directory _ => throw .isDirectory

def isFile (disk : Disk) (path : String) : Bool := disk path matches .ok (.file _)

/-- Follows the parts of a path from a node. `above` holds the directories that two dots lead back
to, the nearest first; nothing is known of what lies above them. -/
def follow (above : List Entries) (node : Node) : List String → Except Failure Node
  | [] => .ok node
  | part :: parts =>
    match node with
    | .file _ => .error .notDirectory
    | .directory entries =>
      if part = "" ∨ part = "." then follow above node parts
      else if part = ".." then
        match above with
        | [] => follow [] (.directory []) parts
        | parent :: above => follow above (.directory parent) parts
      else if 255 < part.utf8ByteSize then .error .nameTooLong
      else
        match entries.lookup part with
        | some next => follow (entries :: above) next parts
        | none => .error .notFound

def isTooLong (path : String) : Bool := 4096 ≤ path.utf8ByteSize

mutual

/-- A node as it is reached by a path. Under a path that is too long it looks like a file that
cannot be read, even if it is a directory. -/
def Node.reachedBy (path : String) : Node → Node
  | .file text => .file (if isTooLong path then .error .nameTooLong else text)
  | .directory entries =>
    if isTooLong path then .file (.error .nameTooLong)
    else .directory (Node.reachedBelow path entries)

def Node.reachedBelow (directory : String) : List (String × Node) → List (String × Node)
  | [] => []
  | (name, node) :: entries =>
    (name, node.reachedBy (Path.join directory name)) :: reachedBelow directory entries

end

/-- The disk on which the working directory has the given entries and nothing else exists. -/
def ofTree (entries : Entries) : Disk := fun path =>
  if path.toList.contains '\x00' then .error .zeroInPath
  else if isTooLong path then .error .nameTooLong
  else if path = "" then .error .notFound
  else
    let start : Entries := if path.toList.head? = some '/' then [] else entries
    let found := follow [] (.directory start) ((path.toList.splitOn '/').map String.ofList)
    found.map (·.reachedBy path)

end Disk

end ConceptMarkup
