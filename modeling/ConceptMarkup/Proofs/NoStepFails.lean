import ConceptMarkup.Editor.Outline
import ConceptMarkup.Proofs.CheckedAnalysis
import ConceptMarkup.Proofs.OffsetPoints
import ConceptMarkup.Proofs.TokenCursor
import ConceptMarkup.Store

/-! No input makes a step fail. Text is cut by byte offset, tokens, lines, entries and characters
are read by index, and offsets and indices are subtracted, in every part of the library; each part
has a form in which such a step can fail, and on all inputs it gives there what it gives without. -/
namespace ConceptMarkup

/-- The document of a source text, by offsets and a cursor alone. -/
def Document.parse? (source : String) : Option Document := do
  let tokens ← tokenizeAt? source
  let (document, _) ← read? source.toList tokens
  some document

private theorem Document.parse?_eq (source : String) : parse? source = some (parse source) := by
  obtain ⟨_, _, _, _, -, -, hr⟩ := exists_parts source
  rw [parse?, tokenizeAt?_eq, Option.bind_eq_bind, Option.bind_some, hr]
  rfl

def Store.update? (s : Store) (path source : String) : Option (AnalyzedDocument × Store) := do
  let document ← Document.parse? source
  let a ← Analysis.ofDocument? document s.options
  let documents := s.documents.insert (Path.components path) ⟨source, document, a.diagnostics⟩
  let d ← documents[Path.components path]?
  some (d, { s with documents })

private theorem Store.update?_eq (s : Store) (path source : String) :
    s.update? path source = some (s.update path source) := by
  simp only [update?, Document.parse?_eq, Analysis.ofDocument?_eq, Std.HashMap.getElem?_insert_self,
    Option.bind_eq_bind, Option.bind_some]
  rfl

namespace Analysis

private theorem lookup?_definitions (d : Document) (options : Options) (name : String) :
    (ofDocument d options).definitions.lookup? name =
      some ((ofDocument d options).definition? name) :=
  NameIndex.lookup?_eq (Definitions.collected_ofConcepts d.concepts).wellFormed name

private theorem lookup?_references (d : Document) (options : Options) (name : String) :
    ((ofDocument d options).references.lookup? name).map (·.elim [] Array.toList) =
      some ((ofDocument d options).referencesTo name) := by
  have h : (ofDocument d options).references.WellFormed :=
    (NameIndex.grouped_ofReferences d.references).wellFormed
  rw [NameIndex.lookup?_eq h]
  rfl

end Analysis

/-- Whatever the text, the options, the offset, the place, the point of the wire, the document and
the names, none of which need fit another, every cut falls on boundaries and in order, every index
is in range, no difference is negative and no range is reversed. To complete what is typed adds no
such step, since names are only compared with it. -/
theorem no_step_fails (source a b name typed path : String) (options : Options) (offset : Nat)
    (p : Position) (q : Protocol.Point) (d : Document) (s : Store) :
    tokenizeAt? source = some (tokenize source) ∧
      Document.parse? source = some (Document.parse source) ∧
      (Document.parse? source).map (·.completions typed) =
        some ((Document.parse source).completions typed) ∧
      (LineIndex.ofText source.toList).locate? offset =
        some ((LineIndex.ofText source.toList).positionAt offset) ∧
      Analysis.ofDocument? d options = some (Analysis.ofDocument d options) ∧
      (Analysis.ofDocument d options).definitions.lookup? name =
        some ((Analysis.ofDocument d options).definition? name) ∧
      ((Analysis.ofDocument d options).references.lookup? name).map (·.elim [] Array.toList) =
        some ((Analysis.ofDocument d options).referencesTo name) ∧
      EditDistance.distance? a.toList b.toList = some (editDistance a b) ∧
      Protocol.Point.ofPosition? source.toList p = some (.ofPosition source.toList p) ∧
      q.toPosition? source.toList = some (q.toPosition source.toList) ∧
      s.update? path source = some (s.update path source) :=
  ⟨tokenizeAt?_eq source, Document.parse?_eq source,
    congrArg (Option.map (·.completions typed)) (Document.parse?_eq source),
    LineIndex.locate?_eq source.toList offset,
    Analysis.ofDocument?_eq d options, Analysis.lookup?_definitions d options name,
    Analysis.lookup?_references d options name, EditDistance.distance?_eq a b,
    Protocol.Point.ofPosition?_eq source.toList p, Protocol.Point.toPosition?_eq source.toList q,
    s.update?_eq path source⟩

end ConceptMarkup
