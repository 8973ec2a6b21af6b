import ConceptMarkup.Editor.Outline
import ConceptMarkup.Proofs.FindingPlaces
import ConceptMarkup.Proofs.LineEndings
import ConceptMarkup.Proofs.PairedFindings

/-! What is found in a text with other line ends, and what an editor is told of it. Findings pair up
and stand at the same lines and columns; on the wire, where offsets play no part, they are equal,
and so are the names that an editor offers with the first lines of their texts. -/
namespace ConceptMarkup
open Text
open List (Forall₂)

/-- Two findings that say the same, at places with the same lines and columns. -/
structure Diagnostic.Alike (e e' : Diagnostic) : Prop where
  severity : e.severity = e'.severity
  code : e.code = e'.code
  message : e.message = e'.message
  notes : e.notes = e'.notes
  suggestions : e.suggestions = e'.suggestions
  range : e.range.Alike e'.range

namespace Diagnostic

private theorem alike_duplicateDefinition {first first' c c' : Concept} (hf : first.Alike first')
    (hc : c.Alike c') : (duplicateDefinition first c).Alike (duplicateDefinition first' c') := by
  rw [duplicateDefinition, duplicateDefinition, hc.name, hf.nameRange.start.line,
    hc.nameRange.start.line]
  exact ⟨rfl, rfl, rfl, rfl, rfl, hc.range⟩

private theorem alike_undefinedReference {r r' : Reference} (h : r.Alike r') (names : List String) :
    (undefinedReference r names).Alike (undefinedReference r' names) := by
  rw [Document.undefinedReference_eq, Document.undefinedReference_eq, h.name]
  exact ⟨rfl, rfl, rfl, rfl, rfl, h.range⟩

private theorem alike_unusedConcept {c c' : Concept} (h : c.Alike c') :
    (unusedConcept c).Alike (unusedConcept c') := by
  rw [unusedConcept, unusedConcept, h.name]
  exact ⟨rfl, rfl, rfl, rfl, rfl, h.range⟩

end Diagnostic

namespace Document

private theorem Alike.names {d d' : Document} (h : d.Alike d') : d.names = d'.names := by
  apply map_eq_of_forall₂ _ h.concepts
  intro c c' hc
  exact hc.name

private theorem Alike.references {d d' : Document} (h : d.Alike d') :
    Forall₂ Reference.Alike d.references d'.references := by
  refine List.rel_flatMap h.concepts ?_
  intro c c' hc
  refine List.rel_flatMap hc.prose ?_
  intro b b' hb
  exact hb.references

private theorem Alike.analyze {d d' : Document} (h : d.Alike d') (options : Options) :
    Forall₂ Diagnostic.Alike (analyze d options) (analyze d' options) := by
  have hn := h.names
  have hr : d.references.map (·.name) = d'.references.map (·.name) := by
    apply map_eq_of_forall₂ _ h.references
    intro r r' hrr
    exact hrr.name
  have hs : ∀ name, d.suggestionsFor options name = d'.suggestionsFor options name := by
    intro name
    rw [suggestionsFor, suggestionsFor, definedNames_eq, definedNames_eq, hn]
  have hdup : Forall₂ Diagnostic.Alike d.duplicateErrors d'.duplicateErrors :=
    duplicateErrors_forall₂ (fun _ _ => Concept.Alike.name) h.concepts
      fun _ _ _ _ => Diagnostic.alike_duplicateDefinition
  have hund : Forall₂ Diagnostic.Alike (d.undefinedErrors options)
      (d'.undefinedErrors options) := by
    apply undefinedErrors_forall₂ hn (fun _ _ => Reference.Alike.name) h.references
    intro r r' hrr
    rw [hs, hrr.name]
    exact Diagnostic.alike_undefinedReference hrr _
  have hunu : Forall₂ Diagnostic.Alike d.unusedWarnings d'.unusedWarnings :=
    unusedWarnings_forall₂ (fun _ _ => Concept.Alike.name) h.concepts hr
      fun _ _ => Diagnostic.alike_unusedConcept
  rw [analyze_eq, analyze_eq]
  refine List.rel_append hdup (List.rel_append hund ?_)
  split
  · exact hunu
  · exact .nil

end Document

private theorem Position.In.eq_of_alike {p q : Position} {cs : List Char} (hp : p.In cs)
    (hq : q.In cs)
    (h : p.Alike q) : p = q := by
  have hle : p ≤ q := .inr ⟨h.line, Nat.le_of_eq h.column⟩
  have hge : q ≤ p := .inr ⟨h.line.symm, Nat.le_of_eq h.column.symm⟩
  have ho := Nat.le_antisymm ((Position.le_iff_offset_le hp hq).mp hle)
    ((Position.le_iff_offset_le hq hp).mp hge)
  rw [← hp.2, ← hq.2, ho]

namespace Protocol

private theorem lastLine_concat_lineFeed (cs : List Char) : lastLine (cs ++ ['\n']) = [] := by
  simp [lastLine]

private theorem lastLine_withReturns (cs : List Char) :
    lastLine (withReturns cs) = lastLine cs := by
  induction cs using List.reverseRecOn with
  | nil => rfl
  | append_singleton cs c ih =>
    by_cases hc : c = '\n'
    · have hl := lastLine_concat_lineFeed (withReturns cs ++ ['\r'])
      rw [List.append_assoc] at hl
      rw [hc, lastLine_concat_lineFeed, withReturns_append]
      exact hl
    · have hn : '\n' ∉ [c] := by simpa using Ne.symm hc
      rw [withReturns_concat cs hc, lastLine_append _ hn, lastLine_append _ hn, ih]

private theorem Point.ofPosition_withReturns {cs : List Char} {p q : Position} (hp : p.In cs)
    (hq : q.In (withReturns cs)) (h : p.Alike q) :
    ofPosition cs p = ofPosition (withReturns cs) q := by
  obtain ⟨as, bs, rfl, rfl⟩ := Position.in_iff.mp hp
  rw [withReturns_append] at hq ⊢
  have ha := (Position.Alike.refl .start).after_withReturns as
  have he : q = Position.start.after (withReturns as) := by
    apply Position.In.eq_of_alike hq (Position.in_after _ _)
    exact ⟨h.line.symm.trans ha.line, h.column.symm.trans ha.column⟩
  rw [he, ofPosition_after, ofPosition_after, count_withReturns, lastLine_withReturns]

private theorem Message.ofDiagnostic_withReturns {cs text text' : List Char} {e e' : Diagnostic}
    (h : e.Alike e') (hs : e.range.Spans cs text) (hs' : e'.range.Spans (withReturns cs) text') :
    ofDiagnostic cs e = ofDiagnostic (withReturns cs) e' := by
  have hspan : Span.ofRange cs e.range = Span.ofRange (withReturns cs) e'.range := by
    rw [Span.ofRange, Span.ofRange, Point.ofPosition_withReturns hs.start hs'.start h.range.start,
      Point.ofPosition_withReturns hs.stop hs'.stop h.range.stop]
  rw [ofDiagnostic, ofDiagnostic, hspan, h.severity, h.code, h.message, h.notes]

end Protocol

namespace Document

private theorem analyze_crlf (source : String) (options : Options) :
    Forall₂ (fun e e' => e.Alike e' ∧
        Protocol.Message.ofDiagnostic source.toList e =
          Protocol.Message.ofDiagnostic (crlf source).toList e')
      (analyze (parse source) options) (analyze (parse (crlf source)) options) := by
  have h := (alike_parse_crlf source).analyze options
  refine List.forall₂_iff_zip.mpr ⟨h.length_eq, fun {e e'} hz => ?_⟩
  obtain ⟨hm, hm'⟩ := List.of_mem_zip hz
  have he : e.Alike e' := List.forall₂_zip h hz
  obtain ⟨_, _, -, hs⟩ := exists_about_of_mem_analyze hm
  obtain ⟨_, _, -, hs'⟩ := exists_about_of_mem_analyze hm'
  rw [toList_crlf] at hs' ⊢
  exact ⟨he, Protocol.Message.ofDiagnostic_withReturns he hs hs'⟩

end Document

namespace Text

private theorem lines_cons {line : List Char} (rest : List Char) (h : '\n' ∉ line) :
    lines (line ++ '\n' :: rest) = dropReturn line :: lines rest := by
  obtain ⟨l, ls, hs⟩ := List.exists_cons_of_ne_nil (List.splitOn_ne_nil '\n' rest)
  rw [lines, List.splitOn_append_cons_self_of_not_mem h, lines, hs, lines.ended]
  exact List.cons_ne_nil l ls

private theorem lines_withReturns {cs : List Char} (h : '\r' ∉ cs) :
    lines (withReturns cs) = lines cs := by
  induction cs using line_induction with
  | last line hl => rw [withReturns_line hl]
  | cons line rest hl ih =>
    rw [List.mem_append, not_or, List.mem_cons, not_or] at h
    have hr : '\n' ∉ line ++ ['\r'] := by simpa using hl
    have hw : withReturns (line ++ '\n' :: rest) = line ++ ['\r'] ++ '\n' :: withReturns rest := by
      rw [withReturns_append, withReturns_line hl, withReturns_cons_lineFeed, List.append_assoc]
      rfl
    rw [hw, lines_cons _ hr, lines_cons _ hl, dropReturn_concat, dropReturn_of_not_mem h.1,
      ih h.2.2]

end Text

namespace Document

private theorem firstOfEachName_forall₂ {S : Concept → Concept → Prop}
    (hS : ∀ c c', S c c' → c.name = c'.name) {cs cs' : List Concept} (h : Forall₂ S cs cs')
    (seen : List String) :
    Forall₂ S (firstOfEachName seen cs) (firstOfEachName seen cs') := by
  induction h generalizing seen with
  | nil => exact .nil
  | @cons c c' cs cs' hc _ ih =>
    rw [firstOfEachName, firstOfEachName, hS c c' hc]
    split
    · exact ih seen
    · exact .cons hc (ih _)

private theorem length_prose_of_mem_parse {source : String} {c : Concept}
    (h : c ∈ (parse source).concepts) : c.prose.length ≤ 1 := by
  rw [parse_concepts] at h
  obtain ⟨p, name, body, rfl⟩ := Concept.exists_ofBody_of_mem_ofTexts h
  exact Option.length_toList_le

private theorem not_mem_text {source : String} {ch : Char} (h : ch ∉ source.toList) {c : Concept}
    (hc : c ∈ (parse source).concepts) {b : Prose} (hb : b ∈ c.prose) : ch ∉ b.text.toList := by
  have hs := (((wellFormed_parse source).concepts c hc).1.prose b hb).1.spans
  obtain ⟨before, after, he, -, -⟩ := hs.exists_middle
  intro hm
  apply h
  rw [he]
  exact List.mem_append_left _ (List.mem_append_right _ hm)

private theorem lines_text_of_alike {source : String} (h : '\r' ∉ source.toList) {c c' : Concept}
    (hc : c ∈ (parse source).concepts) (ha : c.Alike c') :
    lines c.text.toList = lines c'.text.toList := by
  have hl := length_prose_of_mem_parse hc
  have hn : ∀ b ∈ c.prose, '\r' ∉ b.text.toList := fun b hb => not_mem_text h hc hb
  have hp := ha.prose
  rw [Concept.text, Concept.text]
  generalize c.prose = bs, c'.prose = bs' at hl hn hp ⊢
  cases hp with
  | nil => rfl
  | @cons b b' _ _ hb ht =>
    cases ht with
    | nil =>
      have hi : ∀ t : String, "\n\n".intercalate [t] = t := fun _ => rfl
      rw [List.map_singleton, List.map_singleton, hi, hi, hb.text,
        lines_withReturns (hn b List.mem_cons_self)]
    | cons _ _ =>
      simp only [List.length_cons] at hl
      omega

private theorem completions_crlf (source : String) (h : '\r' ∉ source.toList) (typed : String) :
    (parse source).completions typed = (parse (crlf source)).completions typed := by
  have ha := (alike_parse_crlf source).concepts
  have hc : Forall₂ (fun c c' => c.name = c'.name ∧ lines c.text.toList = lines c'.text.toList)
      (parse source).concepts (parse (crlf source)).concepts := by
    refine List.forall₂_iff_zip.mpr ⟨ha.length_eq, fun {c c'} hz => ?_⟩
    have hcc : c.Alike c' := List.forall₂_zip ha hz
    exact ⟨hcc.name, lines_text_of_alike h (List.of_mem_zip hz).1 hcc⟩
  rw [completions, completions]
  refine map_eq_of_forall₂ ?_ (firstOfEachName_forall₂ (fun _ _ hcc => hcc.1)
    (List.rel_filter ?_ hc) [])
  · rintro c c' ⟨hn, hl⟩
    rw [hn, hl]
  · rintro c c' ⟨hn, -⟩
    dsimp only
    rw [hn]

/-- Line ends do not matter. Where each line feed of a source gets a carriage return before it, the
document keeps its names and its places by line and column, and its texts but for their line ends;
findings say the same of the same lines and columns and are equal on the wire; and completions are
equal, if the source itself has no carriage returns. -/
theorem line_ends_do_not_matter (source : String) :
    (parse source).Alike (parse (crlf source)) ∧
      (∀ options, Forall₂ (fun e e' => e.Alike e' ∧
          Protocol.Message.ofDiagnostic source.toList e =
            Protocol.Message.ofDiagnostic (crlf source).toList e')
        (analyze (parse source) options) (analyze (parse (crlf source)) options)) ∧
      ('\r' ∉ source.toList → ∀ typed,
        (parse source).completions typed = (parse (crlf source)).completions typed) :=
  ⟨alike_parse_crlf source, analyze_crlf source, completions_crlf source⟩

/-- A marker with nothing behind it, an empty line and a line in the middle of prose: offsets move,
and all else stays. -/
theorem line_ends_do_not_matter_around_prose :
    let source := "@Cat\n\nmeets\n a @Dog\n"
    let other := "@Cat\r\n\r\nmeets\r\n a @Dog\r\n"
    '\r' ∉ source.toList ∧ crlf source = other ∧
      (parse source).Alike (parse other) ∧
      (parse source).references = [⟨"Dog", ⟨4, 4, 15⟩, ⟨4, 8, 19⟩⟩] ∧
      (parse other).references = [⟨"Dog", ⟨4, 4, 18⟩, ⟨4, 8, 22⟩⟩] ∧
      (parse other).concepts.map (·.text) = ["meets\r\n a @Dog"] ∧
      (parse source).completions "@C" = [⟨"Cat", some "meets"⟩] ∧
      (parse other).completions "@C" = [⟨"Cat", some "meets"⟩] := by
  intro source other
  have hr : '\r' ∉ source.toList := by decide
  have ho : crlf source = other := by decide
  have hc : (parse source).completions "@C" = [⟨"Cat", some "meets"⟩] := by decide
  obtain ⟨ha, -, hcomp⟩ := line_ends_do_not_matter source
  rw [ho] at ha hcomp
  exact ⟨hr, ho, ha, by decide, by decide, by decide, hc, (hcomp hr "@C").symm.trans hc⟩

end Document

end ConceptMarkup
