import ConceptMarkup.Proofs.FrontMatter
import ConceptMarkup.Proofs.LineTokens

/-! Test files whose line ends are of either kind, or of both. What is written between the lines of
dashes comes back as it was, and so does what is written after them: the mark that is looked for
cannot start before the end of the expectations, and one line end and no more is taken off the
markup. A file is rejected that does not begin with a whole line of dashes, or that has no line of
dashes later. -/
namespace ConceptMarkup.TestFile
open Text

inductive LineEnd where
  | feed
  | returnFeed
deriving DecidableEq, Repr

namespace LineEnd

def returns : LineEnd → List Char
  | feed => []
  | returnFeed => ['\r']

def text (e : LineEnd) : List Char := e.returns ++ ['\n']

private theorem isDashes (e : LineEnd) : IsDashes (dashes ++ e.returns) := by
  cases e with
  | feed => exact .inl rfl
  | returnFeed => exact .inr rfl

private theorem afterNewline?_text (e : LineEnd) (cs : List Char) :
    afterNewline? (e.text ++ cs) = some cs := by
  cases e <;> rfl

end LineEnd

/-- A test file from its parts: byte order marks, expectations and markup, with the line ends after
the opening line of dashes and before and after the closing one. -/
def written (marks : Nat) (opening before after : LineEnd) (front source : List Char) : List Char :=
  List.replicate marks '\ufeff' ++
    (dashes ++ opening.text ++ (front ++ before.text ++ (dashes ++ after.text ++ source)))

/-- What counts of a test file: all but the byte order marks at its start. -/
def unmarked (content : List Char) : List Char := content.dropWhile (· = '\ufeff')

/-- The first line of a test file is three dashes, and has an end. -/
def Opened (content : List Char) : Prop :=
  ∃ line rest, unmarked content = line ++ '\n' :: rest ∧ IsDashes line

def laterLines (content : List Char) : List (List Char) := ((unmarked content).splitOn '\n').tail

private theorem newline_not_mem_of_isDashes {line : List Char} (h : IsDashes line) :
    '\n' ∉ line := by
  rcases h with rfl | rfl
  · decide
  · decide

private theorem newline_not_mem_of_mem_splitOn (cs : List Char) :
    ∀ line ∈ cs.splitOn '\n', '\n' ∉ line := by
  induction cs using line_induction with
  | last line hn =>
    rw [List.splitOn_eq_singleton hn]
    exact List.forall_mem_singleton.mpr hn
  | cons line rest hn ih =>
    rw [List.splitOn_append_cons_self_of_not_mem hn]
    exact List.forall_mem_cons.mpr ⟨hn, ih⟩

private theorem infix_iff_exists_line (cs : List Char) :
    '\n' :: dashes <:+: cs ↔ ∃ line ∈ (cs.splitOn '\n').tail, dashes <+: line := by
  have hcs : ['\n'].intercalate (cs.splitOn '\n') = cs := List.intercalate_splitOn '\n'
  conv_lhs => rw [← hcs]
  exact infix_intercalate_iff newline_not_mem_dashes (newline_not_mem_of_mem_splitOn cs)

private theorem afterOpening?_eq_some_iff {cs body : List Char} :
    afterOpening? cs = some body ↔ ∃ line, cs = line ++ '\n' :: body ∧ IsDashes line := by
  constructor
  · intro h
    unfold afterOpening? at h
    split at h
    · unfold afterNewline? at h
      split at h
      · cases h
        exact ⟨_, rfl, .inr rfl⟩
      · cases h
        exact ⟨_, rfl, .inl rfl⟩
      · cases h
    · cases h
  · rintro ⟨line, rfl, rfl | rfl⟩
    · rfl
    · rfl

private theorem split_of_opening {content line body : List Char}
    (h : unmarked content = line ++ '\n' :: body) (hd : IsDashes line) :
    split content = split (dashes ++ '\n' :: body) := by
  have ho : afterOpening? (content.dropWhile (· = '\ufeff')) = some body :=
    afterOpening?_eq_some_iff.mpr ⟨line, h, hd⟩
  rw [split_opened, split, ho]
  rfl

private theorem split_eq_missingOpening_iff {content : List Char} :
    split content = .error .missingOpening ↔ ¬ Opened content := by
  by_cases h : Opened content
  · refine iff_of_false (fun hs => ?_) (not_not_intro h)
    obtain ⟨line, body, he, hd⟩ := h
    rw [split_of_opening he hd, split_opened] at hs
    split at hs
    · cases hs
    · cases hs
  · refine iff_of_true ?_ h
    have ho : afterOpening? (content.dropWhile (· = '\ufeff')) = none := by
      rw [Option.eq_none_iff_forall_ne_some]
      intro body hb
      obtain ⟨line, he, hd⟩ := afterOpening?_eq_some_iff.mp hb
      exact h ⟨line, body, he, hd⟩
    rw [split, ho]

private theorem split_eq_missingClosing_iff_of_opened {content : List Char} (h : Opened content) :
    split content = .error .missingClosing ↔
      ∀ line ∈ (laterLines content).tail, ¬ dashes <+: line := by
  obtain ⟨line, body, he, hd⟩ := h
  have hn := newline_not_mem_of_isDashes hd
  rw [split_of_opening he hd, split_eq_missingClosing_iff, infix_iff_exists_line, laterLines, he,
    List.splitOn_append_cons_self_of_not_mem hn, List.tail_cons]
  simp only [not_exists, not_and]

private theorem unmarked_written (marks : Nat) (opening before after : LineEnd)
    (front source : List Char) :
    unmarked (written marks opening before after front source) =
      dashes ++ opening.returns ++
        '\n' :: (front ++ before.text ++ (dashes ++ after.text ++ source)) := by
  have hm : ∀ c ∈ List.replicate marks '\ufeff', decide (c = '\ufeff') = true := by
    intro c hc
    exact decide_eq_true (List.eq_of_mem_replicate hc)
  rw [unmarked, written, List.dropWhile_append_of_pos hm]
  simp [dashes, LineEnd.text]

private theorem not_infix_append_returns {front : List Char} (h : ¬ '\n' :: dashes <:+: front)
    (e : LineEnd) : ¬ '\n' :: dashes <:+: front ++ e.returns := by
  cases e with
  | feed => rwa [LineEnd.returns, List.append_nil]
  | returnFeed =>
    rw [LineEnd.returns, List.infix_concat_iff, not_or]
    refine ⟨fun hs => ?_, h⟩
    have := hs.getLast (List.cons_ne_nil _ _)
    simp [dashes] at this

private theorem dropEndWhile_append_returns {front : List Char} (h : ¬ ['\r'] <:+ front)
    (e : LineEnd) : dropEndWhile (· = '\r') (front ++ e.returns) = front := by
  rw [← dropEndWhile_return_eq_self_iff] at h
  cases e with
  | feed => rwa [LineEnd.returns, List.append_nil]
  | returnFeed =>
    conv_rhs => rw [← h]
    exact List.rdropWhile_concat_pos _ _ _ (by simp)

private theorem split_written (marks : Nat) (opening before after : LineEnd) {front : List Char}
    (source : List Char) (hf : ¬ '\n' :: dashes <:+: front) (hr : ¬ ['\r'] <:+ front) :
    split (written marks opening before after front source) = .ok (front, source) := by
  have hb : front ++ before.text ++ (dashes ++ after.text ++ source) =
      front ++ before.returns ++ ('\n' :: dashes ++ (after.text ++ source)) := by
    simp [LineEnd.text]
  rw [split_of_opening (unmarked_written ..) opening.isDashes, split_opened, hb,
    splitOnce?_append newline_not_mem_dashes (not_infix_append_returns hf before)]
  simp only [dropEndWhile_append_returns hr, LineEnd.afterNewline?_text, Option.getD_some]

private theorem read_eq_error_iff {content : String} {e : FormatError}
    (he : e ≠ .invalidExpectation) : read content = .error e ↔ split content.toList = .error e := by
  cases hs : split content.toList with
  | error e' => simp only [read, hs, bind, Except.bind, Except.error.injEq]
  | ok parts =>
    refine iff_of_false (fun hr => ?_) (fun h => by cases h)
    have hread := read_ofList_of_split hs
    rw [String.ofList_toList] at hread
    rw [hread] at hr
    cases ht : Expectation.ofToml? (.ofList parts.1) with
    | none =>
      rw [ht] at hr
      exact he (Except.error.inj hr).symm
    | some expectation =>
      rw [ht] at hr
      cases hr

/-- What is written is read as it was written: expectations without a line end before dashes and
without a carriage return at their end go to their reader unchanged, and the markup comes back
unchanged if they are accepted, whatever the line ends and however many byte order marks. Rejected
is exactly what does not begin with a whole line of dashes, and what has no line from the third on
that starts with dashes, so all that has none after its first line. -/
theorem read_written :
    (∀ (marks : Nat) (opening before after : LineEnd) (front source : List Char),
      ¬ '\n' :: dashes <:+: front → ¬ ['\r'] <:+ front →
      let content := written marks opening before after front source
      split content = .ok (front, source) ∧
        read (.ofList content) = match Expectation.ofToml? (.ofList front) with
          | some expectation => .ok (expectation, .ofList source)
          | none => .error .invalidExpectation) ∧
    ∀ content : String,
      (read content = .error .missingOpening ↔ ¬ Opened content.toList) ∧
      (Opened content.toList → (read content = .error .missingClosing ↔
        ∀ line ∈ (laterLines content.toList).tail, ¬ dashes <+: line)) ∧
      ((∀ line ∈ laterLines content.toList, ¬ dashes <+: line) →
        read content = .error .missingOpening ∨ read content = .error .missingClosing) := by
  refine ⟨fun marks opening before after front source hf hr => ?_, fun content => ?_⟩
  · have hs := split_written marks opening before after source hf hr
    exact ⟨hs, read_ofList_of_split hs⟩
  · have ho : read content = .error .missingOpening ↔ ¬ Opened content.toList :=
      (read_eq_error_iff (by decide)).trans split_eq_missingOpening_iff
    have hc (h : Opened content.toList) : read content = .error .missingClosing ↔
        ∀ line ∈ (laterLines content.toList).tail, ¬ dashes <+: line :=
      (read_eq_error_iff (by decide)).trans (split_eq_missingClosing_iff_of_opened h)
    refine ⟨ho, hc, fun hl => ?_⟩
    by_cases h : Opened content.toList
    · exact .inr ((hc h).mpr fun line hm => hl line (List.mem_of_mem_tail hm))
    · exact .inl (ho.mpr h)

/-- Line ends of both kinds, dashes within a line, and a markup that begins with a line end and a
byte order mark. An indented line of dashes closes nothing. -/
theorem read_written_mixed :
    let front := "# ---\r\ndescription = 'a'".toList
    let source := "\n\ufeff---\r\n".toList
    let content := written 2 .feed .returnFeed .feed front source
    let unclosed := "---\r\n ---\n--"
    (¬ '\n' :: dashes <:+: front ∧ ¬ ['\r'] <:+ front) ∧
      content = "\ufeff\ufeff---\n# ---\r\ndescription = 'a'\r\n---\n\n\ufeff---\r\n".toList ∧
      split content = .ok (front, source) ∧
      read (.ofList content) = .ok ({ description := some "a" }, .ofList source) ∧
      (∀ line ∈ laterLines unclosed.toList, ¬ dashes <+: line) ∧
      read unclosed = .error .missingClosing := by
  intro front source content unclosed
  have hf : ¬ '\n' :: dashes <:+: front := by decide
  have hr : ¬ ['\r'] <:+ front := by decide
  have ho : Opened unclosed.toList := ⟨"---\r".toList, " ---\n--".toList, by decide, .inr rfl⟩
  have hl : ∀ line ∈ laterLines unclosed.toList, ¬ dashes <+: line := by decide
  obtain ⟨hs, hread⟩ := read_written.1 2 .feed .returnFeed .feed front source hf hr
  have he : Expectation.ofToml? (.ofList front) = some { description := some "a" } := by
    decide +kernel
  rw [he] at hread
  refine ⟨⟨hf, hr⟩, by decide, hs, hread, hl, ?_⟩
  exact ((read_written.2 unclosed).2.1 ho).mpr fun line hm => hl line (List.mem_of_mem_tail hm)

end ConceptMarkup.TestFile
