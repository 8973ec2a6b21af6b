import ConceptMarkup.Diagnostic

/-! The gate before code generation: a document with an error must not pass. -/
namespace ConceptMarkup

structure GenerationBlocked where
  errors : Nat
  /-- The first error, on one line. -/
  first : String
deriving DecidableEq, Repr

def GenerationBlocked.message (b : GenerationBlocked) : String :=
  s!"generation blocked by {b.errors} error(s); first: {b.first}"

/-- Passes unless a diagnostic is an error; warnings and infos do not block. -/
def checkReady (ds : List Diagnostic) : Except GenerationBlocked Unit :=
  match ds.filter (·.isError) with
  | [] => .ok ()
  | first :: rest => .error ⟨rest.length + 1, first.display⟩

end ConceptMarkup
