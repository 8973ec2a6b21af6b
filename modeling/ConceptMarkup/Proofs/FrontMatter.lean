import ConceptMarkup.Expectation.TestFile
import ConceptMarkup.Proofs.MarkSearch
import ConceptMarkup.Proofs.Trimming

/-! Test files that are put together from lines. The line of dashes at the start has to be whole.
The one that ends the expectations is found as a line end and three dashes, whatever follows them,
and the line end at which the expectations start is no longer part of what is searched. -/
namespace ConceptMarkup.TestFile
open Text

def dashes : List Char := ['-', '-', '-']

/-- Whether a line, without its end, consists of three dashes. -/
def IsDashes (line : List Char) : Prop := line = dashes ∨ line = dashes ++ ['\r']

def ended (lines : List (List Char)) : List Char := lines.flatMap (· ++ ['\n'])

def unended (lines : List (List Char)) : List Char := dropReturn (['\n'].intercalate lines)

/-- A test file with the lines of its expectations between two lines of dashes. -/
def assemble (lines : List (List Char)) (source : List Char) : List Char :=
  dashes ++ '\n' :: (ended lines ++ (dashes ++ '\n' :: source))

private theorem ended_append (lines others : List (List Char)) :
    ended (lines ++ others) = ended lines ++ ended others := List.flatMap_append

private theorem ended_cons (first : List Char) (lines : List (List Char)) :
    ended (first :: lines) = ['\n'].intercalate (first :: lines) ++ ['\n'] := by
  induction lines generalizing first with
  | nil => simp [ended]
  | cons second rest ih =>
    have he : ended (first :: second :: rest) = first ++ '\n' :: ended (second :: rest) := by
      simp [ended]
    rw [he, ih, List.intercalate_cons_cons]
    simp

theorem newline_not_mem_dashes : '\n' ∉ dashes := by decide

/-- After a whole line of dashes the next line end with dashes after it is looked for. -/
theorem split_opened (body : List Char) :
    split (dashes ++ '\n' :: body) = match splitOnce? ('\n' :: dashes) body with
      | none => .error .missingClosing
      | some (front, after) =>
        .ok (dropEndWhile (· = '\r') front, (afterNewline? after).getD after) := rfl

theorem split_eq_missingClosing_iff (body : List Char) :
    split (dashes ++ '\n' :: body) = .error .missingClosing ↔ ¬ '\n' :: dashes <:+: body := by
  rw [← splitOnce?_eq_none_iff, split_opened]
  cases splitOnce? ('\n' :: dashes) body with
  | none => exact iff_of_true rfl rfl
  | some parts => exact iff_of_false nofun nofun

private theorem split_closed {first : List Char} {before : List (List Char)}
    (hl : ∀ line ∈ first :: before, '\n' ∉ line) (hb : ∀ line ∈ before, ¬ dashes <+: line)
    (after : List Char) :
    split (dashes ++ '\n' :: (ended (first :: before) ++ (dashes ++ after))) =
      .ok (dropEndWhile (· = '\r') (['\n'].intercalate (first :: before)),
        (afterNewline? after).getD after) := by
  have hn : ¬ '\n' :: dashes <:+: ['\n'].intercalate (first :: before) := by
    rw [infix_intercalate_iff newline_not_mem_dashes hl]
    rintro ⟨line, hm, hp⟩
    exact hb line hm hp
  have he : ended (first :: before) ++ (dashes ++ after) =
      ['\n'].intercalate (first :: before) ++ ('\n' :: dashes ++ after) := by
    rw [ended_cons, List.append_assoc, List.cons_append]
    rfl
  rw [split_opened, he, splitOnce?_append newline_not_mem_dashes hn]

private theorem split_assemble_of_not_dashes {first : List Char} {rest : List (List Char)}
    (source : List Char) (hl : ∀ line ∈ first :: rest, '\n' ∉ line)
    (hr : ∀ line ∈ rest, ¬ dashes <+: line) :
    split (assemble (first :: rest) source) =
      .ok (dropEndWhile (· = '\r') (['\n'].intercalate (first :: rest)), source) :=
  split_closed hl hr ('\n' :: source)

private theorem split_assemble_of_dashes {first : List Char} {before after : List (List Char)}
    (rest source : List Char)
    (hl : ∀ line ∈ first :: (before ++ (dashes ++ rest) :: after), '\n' ∉ line)
    (hb : ∀ line ∈ before, ¬ dashes <+: line) :
    let cut := rest ++ '\n' :: (ended after ++ (dashes ++ '\n' :: source))
    split (assemble (first :: (before ++ (dashes ++ rest) :: after)) source) =
      .ok (dropEndWhile (· = '\r') (['\n'].intercalate (first :: before)),
        (afterNewline? cut).getD cut) := by
  intro cut
  have he : ended (first :: (before ++ (dashes ++ rest) :: after)) ++ (dashes ++ '\n' :: source) =
      ended (first :: before) ++ (dashes ++ cut) := by
    rw [← List.cons_append, ended_append, List.append_assoc]
    simp [ended, cut]
  rw [assemble, he]
  refine split_closed (fun line hm => hl line ?_) hb cut
  rw [← List.cons_append]
  exact List.mem_append_left _ hm

private theorem split_assemble_nil (source : List Char) :
    split (assemble [] source) = .error .missingClosing ↔
      ¬ dashes <+: source ∧ ¬ '\n' :: dashes <:+: source := by
  have hi : '\n' :: dashes <:+: dashes ++ '\n' :: source ↔
      dashes <+: source ∨ '\n' :: dashes <:+: source :=
    infix_append_cons_iff newline_not_mem_dashes
  rw [← not_or, ← hi]
  exact split_eq_missingClosing_iff (dashes ++ '\n' :: source)

private theorem split_assemble_nil_ne (source : List Char) :
    split (assemble [] source) ≠ .ok (unended [], source) := by
  intro h
  rw [assemble, split_opened] at h
  split at h
  · cases h
  · next front after hs =>
    have hf : dropEndWhile (· = '\r') front = [] := (Prod.mk.inj (Except.ok.inj h)).1
    rw [dropEndWhile_eq_rdropWhile, List.rdropWhile_eq_nil_iff] at hf
    have he : '-' :: '-' :: '-' :: '\n' :: source = front ++ ('\n' :: dashes ++ after) :=
      splitOnce?_eq_some hs
    cases front with
    | nil => cases (List.cons.inj he).1
    | cons c cs =>
      have hc : c = '\r' := of_decide_eq_true (hf c List.mem_cons_self)
      rw [hc] at he
      exact absurd (List.cons.inj he).1 (by decide)

private theorem exists_first_dashes {lines : List (List Char)}
    (h : ¬ ∀ line ∈ lines, ¬ dashes <+: line) :
    ∃ before rest after, lines = before ++ (dashes ++ rest) :: after ∧
      ∀ line ∈ before, ¬ dashes <+: line := by
  have hf : (lines.find? fun line => dashes <+: line).isSome := by
    rw [List.find?_isSome]
    simpa using h
  obtain ⟨line, hs⟩ := Option.isSome_iff_exists.mp hf
  obtain ⟨hp, before, after, rfl, hb⟩ := List.find?_eq_some_iff_append.mp hs
  obtain ⟨rest, rfl⟩ := of_decide_eq_true hp
  exact ⟨before, rest, after, rfl, fun line hm => by simpa using hb line hm⟩

private theorem length_intercalate_cut (first rest : List Char) (before after : List (List Char)) :
    (['\n'].intercalate (first :: before)).length + 4 ≤
      (['\n'].intercalate (first :: (before ++ (dashes ++ rest) :: after))).length := by
  have hc := congrArg List.length (ended_cons first before)
  have hw := congrArg List.length (ended_cons first (before ++ (dashes ++ rest) :: after))
  have he : ended (first :: (before ++ (dashes ++ rest) :: after)) =
      ended (first :: before) ++ ended ((dashes ++ rest) :: after) :=
    ended_append (first :: before) _
  rw [he] at hw
  simp only [List.length_append, List.length_singleton] at hc hw
  have hd : 4 ≤ (ended ((dashes ++ rest) :: after)).length := by
    simp [ended, dashes]
    omega
  omega

/-- Whether the lines of a test file come apart as they were put together. -/
def Separable (lines : List (List Char)) : Prop :=
  lines ≠ [] ∧ (∀ line ∈ lines.tail, ¬ dashes <+: line) ∧
    ¬ ['\r', '\r'] <:+ ['\n'].intercalate lines

instance : DecidablePred Separable := fun _ => inferInstanceAs (Decidable (_ ∧ _ ∧ _))

private theorem split_assemble_eq_iff {lines : List (List Char)} (source : List Char)
    (hl : ∀ line ∈ lines, '\n' ∉ line) :
    split (assemble lines source) = .ok (unended lines, source) ↔ Separable lines := by
  rw [Separable]
  cases lines with
  | nil => simp [split_assemble_nil_ne]
  | cons first lines =>
    rw [and_iff_right (List.cons_ne_nil _ _), List.tail_cons, ← dropEndWhile_return_eq_iff]
    by_cases hd : ∀ line ∈ lines, ¬ dashes <+: line
    · rw [split_assemble_of_not_dashes source hl hd, and_iff_right hd, Except.ok.injEq,
        Prod.mk.injEq, and_iff_left rfl]
      rfl
    · refine iff_of_false (fun h => ?_) (fun h => hd h.1)
      obtain ⟨before, rest, after, rfl, hb⟩ := exists_first_dashes hd
      rw [split_assemble_of_dashes rest source hl hb] at h
      have he := congrArg List.length (Prod.mk.inj (Except.ok.inj h)).1
      have hlt := length_intercalate_cut first rest before after
      have hle := length_dropReturn_le
        (['\n'].intercalate (first :: (before ++ (dashes ++ rest) :: after)))
      have hf := (List.rdropWhile_prefix (· = '\r')
        (l := ['\n'].intercalate (first :: before))).length_le
      rw [dropEndWhile_eq_rdropWhile, unended] at he
      omega

theorem read_ofList_of_split {content front source : List Char}
    (h : split content = .ok (front, source)) :
    read (.ofList content) = match Expectation.ofToml? (.ofList front) with
      | some expectation => .ok (expectation, .ofList source)
      | none => .error .invalidExpectation := by
  cases he : Expectation.ofToml? (.ofList front) with
  | none => simp only [read, String.toList_ofList, h, bind, Except.bind, he]
  | some expectation => simp only [read, String.toList_ofList, h, bind, Except.bind, he]

/-- The lines that were put together come apart again exactly if there are any, none after the first
starts with three dashes, and at most one carriage return stands at their end. A line that starts
with dashes cuts the expectations short. With no lines at all there is no end to be found. -/
theorem split_assemble {lines : List (List Char)} (source : List Char)
    (hl : ∀ line ∈ lines, '\n' ∉ line) :
    (split (assemble lines source) = .ok (unended lines, source) ↔ Separable lines) ∧
    (Separable lines → read (.ofList (assemble lines source)) =
      match Expectation.ofToml? (.ofList (unended lines)) with
      | some expectation => .ok (expectation, .ofList source)
      | none => .error .invalidExpectation) ∧
    (∀ first before rest after, lines = first :: (before ++ (dashes ++ rest) :: after) →
      (∀ line ∈ before, ¬ dashes <+: line) →
      let cut := rest ++ '\n' :: (ended after ++ (dashes ++ '\n' :: source))
      split (assemble lines source) =
        .ok (dropEndWhile (· = '\r') (['\n'].intercalate (first :: before)),
          (afterNewline? cut).getD cut)) ∧
    (split (assemble [] source) = .error .missingClosing ↔
      ¬ dashes <+: source ∧ ¬ '\n' :: dashes <:+: source) := by
  have hs := split_assemble_eq_iff source hl
  refine ⟨hs, fun h => read_ofList_of_split (hs.mpr h), ?_, split_assemble_nil source⟩
  rintro first before rest after rfl hb
  exact split_assemble_of_dashes rest source hl hb

/-- More dashes on the first line, dashes within a line and dashes in the markup are no ends, but
more dashes on a later line are. -/
theorem split_assemble_four_dashes :
    let lines := ["----", " ---", "a\r"].map String.toList
    let quoted := ["a = \"\"\"", "---- b", "\"\"\""].map String.toList
    (∀ line ∈ lines, '\n' ∉ line) ∧ Separable lines ∧ unended lines = "----\n ---\na".toList ∧
      split (assemble lines "---\n".toList) = .ok (unended lines, "---\n".toList) ∧
      (∀ line ∈ quoted, '\n' ∉ line) ∧ split (assemble quoted "@A".toList) =
        .ok ("a = \"\"\"".toList, "- b\n\"\"\"\n---\n@A".toList) := by
  intro lines quoted
  have hl : ∀ line ∈ lines, '\n' ∉ line := by decide
  have hs : Separable lines := by decide
  have hq : ∀ line ∈ quoted, '\n' ∉ line := by decide
  refine ⟨hl, hs, by decide, (split_assemble "---\n".toList hl).1.mpr hs, hq, ?_⟩
  have hc := (split_assemble "@A".toList hq).2.2.1 "a = \"\"\"".toList [] "- b".toList
    ["\"\"\"".toList] (by decide) nofun
  exact hc.trans (by rfl)

/-- Expectations without a line are not accepted, and a text in them whose second line starts with
four dashes is cut there, although neither has a line of three dashes. -/
theorem whole_line_of_dashes_not_required :
    split "---\n---\n@A\n".toList = .error .missingClosing ∧
      split "---\ndescription = \"\"\"\n---- a\n\"\"\"\n---\n@A\n".toList =
        .ok ("description = \"\"\"".toList, "- a\n\"\"\"\n---\n@A\n".toList) ∧
      ¬ ∀ (lines : List (List Char)) (source : List Char),
        (∀ line ∈ lines, '\n' ∉ line ∧ ¬ IsDashes line) →
        split (assemble lines source) = .ok (unended lines, source) := by
  refine ⟨by decide +kernel, by decide +kernel, fun h => ?_⟩
  exact absurd (h [] "@A\n".toList nofun) (by decide)

end ConceptMarkup.TestFile
