import ConceptMarkup.Proofs.ErrorGates
import ConceptMarkup.Proofs.TokenCursor
import ConceptMarkup.Store

/-! What is reported while a document is opened. Tokens that belong to no concept leave a log line
and no diagnostic, so that a loop over a body that ended early would show in the log alone. The
counts of the later lines are taken at three places and are counts of the same things. -/
namespace ConceptMarkup

namespace Document

private theorem countP_duplicateDefinition (d : Document) (options : Options) :
    (analyze d options).countP (·.code = some .duplicateDefinition) = d.duplicateErrors.length := by
  have hdup : d.duplicateErrors.countP (·.code = some .duplicateDefinition) =
      d.duplicateErrors.length := by
    rw [List.countP_eq_length]
    intro e he
    exact decide_eq_true (code_of_mem_duplicateErrors he)
  have hundef : (d.undefinedErrors options).countP (·.code = some .duplicateDefinition) = 0 := by
    rw [List.countP_eq_zero]
    intro e he
    simp [code_of_mem_undefinedErrors he]
  have hunused : (if options.unusedConcepts then d.unusedWarnings else []).countP
      (·.code = some .duplicateDefinition) = 0 := by
    rw [List.countP_eq_zero]
    intro e he
    split at he
    · simp [code_of_mem_unusedWarnings he]
    · cases he
  rw [analyze_eq, List.countP_append, List.countP_append, hdup, hundef, hunused, Nat.zero_add,
    Nat.add_zero]

private theorem size_definitions (d : Document) (options : Options) :
    (Analysis.ofDocument d options).definitions.size + d.duplicateErrors.length =
      d.concepts.length := by
  have hkeys := (Definitions.collected_ofConcepts d.concepts).keys
  have hsize : (Analysis.ofDocument d options).definitions.size =
      (d.concepts.map (·.name)).eraseDups.length := by
    rw [← hkeys, NameIndex.keys, List.length_map, NameIndex.toList, Array.length_toList]
    rfl
  rw [hsize, duplicateErrors, List.length_map, Nat.add_comm]
  exact Concept.length_redefinitions d.concepts

end Document

namespace Store
open Token

private theorem updateEvents_eq (s : Store) (path source : String) :
    s.updateEvents path source =
      (Document.strays (tokenize source)).map (fun t => .stray t.lexeme t.range.start.line) ++
        [.parsed (tokenize source).length (Document.parse source).concepts.length,
          (Analysis.ofDocument (Document.parse source) s.options).event (Document.parse source),
          .reanalyzed path (Document.parse source).concepts.length
            (analyze (Document.parse source) s.options).length] := by
  rw [updateEvents, AnalyzedDocument.events, Document.parseEvents, List.append_assoc,
    List.append_assoc]
  rfl

/-- What opening a document reports. All tokens but the end of input are taken, each once, and those
that stand before the first marker, newlines at the start aside, are reported one by one; nothing is
reported of a token after that. Then come the counts: the three counts of concepts are one number,
the two counts of diagnostics are one number, and the concepts that are not defined under their
names are the duplicate definitions. -/
theorem opening_events (s : Store) (path source : String) :
    let d := (s.openPath path source).1
    ∃ newlines strays rest last, Parts (tokenize source) newlines strays rest last ∧
      Document.read? source.toList (tokenize source) = some (Document.parse source,
        ⟨newlines ++ strays ++ rest, strays, (Document.parse source).concepts⟩) ∧
      (s.updateEvents path source).filter (fun e => e.level = .trace &&
        e.message = "skipping content outside any concept") =
          strays.map (fun t => .stray t.lexeme t.range.start.line) ∧
      ∃ defined referenced, s.updateEvents path source =
        strays.map (fun t => .stray t.lexeme t.range.start.line) ++
          [.parsed (tokenize source).length d.document.concepts.length,
            .analyzed d.document.concepts.length defined referenced d.diagnostics.length,
            .reanalyzed path d.document.concepts.length d.diagnostics.length] ∧
        d.document.concepts.length =
          defined + d.diagnostics.countP (·.code = some .duplicateDefinition) := by
  intro d
  obtain ⟨newlines, strays, rest, last, hparts, hstrays, hread⟩ := Document.exists_parts source
  have hevents := s.updateEvents_eq path source
  rw [hstrays] at hevents
  refine ⟨newlines, strays, rest, last, hparts, hread, ?_, _, _, hevents, ?_⟩
  · rw [hevents, List.filter_append, List.filter_eq_self.mpr, List.filter_eq_nil_iff.mpr,
      List.append_nil]
    · simp [Event.level, Analysis.event]
    · intro e he
      obtain ⟨t, -, rfl⟩ := List.mem_map.mp he
      rfl
  · have hcount := (Document.parse source).countP_duplicateDefinition s.options
    have hsize := (Document.parse source).size_definitions s.options
    rw [← hcount] at hsize
    exact hsize.symm

/-- The newline at the start is not reported, the one after a stray text is. -/
example : Document.parseEvents "\n x\n@A\ny" =
    [.stray (.text "x") 2, .stray .newline 2, .parsed 7 1] := by
  decide

end Store

end ConceptMarkup
