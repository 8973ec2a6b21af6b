import ConceptMarkup.Proofs.CategoryGroups
import ConceptMarkup.Proofs.CategorySelection

/-! Runs of the tests below a directory. Each test file that the filters select is run once, in the
order of the categories and of the paths, whatever else the directories hold and in whichever order
they list it. The transcript has a line for each and counts them all, and the run succeeds if there
are any and all pass. -/
namespace ConceptMarkup.Suite

def result (root : String) (options : Options) (t : FoundTest) : TestResult :=
  .ofFile (t.path root) t.text options

/-- The lines on tests, one for each, with a heading wherever another category begins than the one
that is shown. -/
def listing (palette : Palette) (root : String) (options : Options) (shown : Option String) :
    List FoundTest → List String
  | [] => []
  | t :: tests =>
    (if shown = some t.category then []
      else ["", palette.paint "1" (if t.category = "" then "(root)" else t.category)]) ++
      (result root options t).line palette :: listing palette root options (some t.category) tests

def failureReport (results : List TestResult) : List String :=
  if results.all (·.passed) then []
  else ["", "failures:"] ++ (results.filter (!·.passed)).flatMap (·.failureLines)

def countsLine (palette : Palette) (passed failed : Nat) : String :=
  if failed = 0 then
    let status := palette.paint "32" "ok"
    s!"test result: {status}. {passed} passed, 0 failed"
  else
    let status := palette.paint "31" "FAILED"
    s!"test result: {status}. {passed} passed, {failed} failed " ++ s!"(of {passed + failed})"

section
variable (palette : Palette) (root : String) (options : Options)

private theorem listing_shown {name : String} {tests : List FoundTest}
    (h : ∀ t ∈ tests, t.category = name) (rest : List FoundTest) :
    listing palette root options (some name) (tests ++ rest) =
      tests.map (fun t => (result root options t).line palette) ++
        listing palette root options (some name) rest := by
  induction tests with
  | nil => rfl
  | cons t tests ih =>
    obtain ⟨ht, hts⟩ := List.forall_mem_cons.mp h
    rw [List.cons_append, listing, ht, if_pos rfl, List.nil_append, ih hts]
    rfl

private theorem listing_category {c : Category} (hc : c.tests ≠ [])
    (hn : ∀ t ∈ c.tests, t.category = c.name) {shown : Option String} (hs : shown ≠ some c.name)
    (rest : List FoundTest) :
    listing palette root options shown (c.tests ++ rest) =
      categoryLines palette root options c ++ listing palette root options (some c.name) rest := by
  obtain ⟨t, tests, he⟩ := List.exists_cons_of_ne_nil hc
  rw [he] at hn
  obtain ⟨ht, hts⟩ := List.forall_mem_cons.mp hn
  rw [he, List.cons_append, listing, ht, if_neg hs, listing_shown palette root options hts,
    categoryLines, categoryResults, he, Category.label_eq]
  simp [result]

private theorem listing_flatMap {tests : List FoundTest} {cs chosen : List Category}
    (h : Category.Groups tests cs) (hs : chosen.Sublist cs) {shown : Option String}
    (hn : ∀ c ∈ chosen, shown ≠ some c.name) :
    listing palette root options shown (chosen.flatMap (·.tests)) =
      chosen.flatMap (categoryLines palette root options) := by
  induction chosen generalizing shown with
  | nil => rfl
  | cons c chosen ih =>
    have hc : c ∈ cs := hs.mem List.mem_cons_self
    have hlater : ∀ c' ∈ chosen, some c.name ≠ some c'.name := by
      intro c' hc' he
      exact ((List.pairwise_cons.mp (h.names.sublist hs)).1 c' hc').ne (Option.some.inj he)
    rw [List.flatMap_cons, List.flatMap_cons,
      listing_category palette root options (h.ne_nil c hc)
        (fun t ht => ((h.mem_iff c hc t).mp ht).2) (hn c List.mem_cons_self),
      ih (List.sublist_of_cons_sublist hs) hlater]

private theorem map_result_flatMap (cs : List Category) :
    (cs.flatMap (·.tests)).map (result root options) =
      cs.flatMap (categoryResults root options) := by
  rw [List.map_flatMap]
  rfl

end

private theorem countP_passed_add_countP_failed (results : List TestResult) :
    results.countP (·.passed) + results.countP (!·.passed) = results.length := by
  simpa using (List.length_eq_countP_add_countP (p := TestResult.passed) (l := results)).symm

private theorem closing_eq (palette : Palette) (results : List TestResult) :
    closing palette results = failureReport results ++
      ["", countsLine palette (results.countP (·.passed)) (results.countP (!·.passed))] := by
  have hc := countP_passed_add_countP_failed results
  have hf : (results.filter (!·.passed)).length = results.countP (!·.passed) :=
    List.countP_eq_length_filter.symm
  have hp : results.length - results.countP (!·.passed) = results.countP (·.passed) := by omega
  by_cases h : results.all (·.passed)
  · have hn : results.filter (!·.passed) = [] := by
      simpa using h
    rw [hn, List.length_nil] at hf
    rw [← hf, Nat.sub_zero] at hp
    simp only [closing, failureReport, countsLine, hn, ← hf, h, List.isEmpty_nil, if_true, hp,
      List.length_nil, Nat.sub_zero, List.nil_append]
  · have hn : results.filter (!·.passed) ≠ [] := by
      simpa using h
    have h0 : results.countP (!·.passed) ≠ 0 := by
      rw [← hf]
      exact mt List.length_eq_zero_iff.mp hn
    rw [closing, failureReport, countsLine, if_neg h0, if_neg h, if_neg (mt List.isEmpty_iff.mp hn),
      hf, hp, hc, List.append_assoc]

open Disk FoundTest

/-- The tests below a directory that filters select, in the order in which they are run. -/
def selectedTests (entries : Entries) (filters : List String) : List FoundTest :=
  (Category.select (Category.discover entries) filters).1.flatMap (·.tests)

def warnings (entries : Entries) (filters : List String) : List String :=
  (Category.select (Category.discover entries) filters).2.map
    (Category.warningLine ((Category.discover entries).map (·.name)))

section
variable {entries : Entries} {filters : List String}

private theorem groups_discover (h : Tree entries) :
    Category.Groups (inEntries [] entries) (Category.discover entries) :=
  Category.groups_ofTests (nodup_parts_inEntries h [])

private theorem mem_selectedTests_iff (h : Tree entries) {t : FoundTest} :
    t ∈ selectedTests entries filters ↔ FileAt entries t.directories t.name t.text ∧
      isTestName t.name ∧ Category.Selected filters t.category := by
  have hg := groups_discover h
  rw [selectedTests, List.mem_flatMap, ← and_assoc, ← mem_inEntries_iff]
  constructor
  · rintro ⟨c, hc, ht⟩
    obtain ⟨hd, hs⟩ := Category.mem_select_iff.mp hc
    obtain ⟨hm, hn⟩ := (hg.mem_iff c hd t).mp ht
    exact ⟨hm, hn ▸ hs⟩
  · rintro ⟨hm, hs⟩
    obtain ⟨c, hc, hn⟩ := hg.exists_mem t hm
    exact ⟨c, Category.mem_select_iff.mpr ⟨hc, hn ▸ hs⟩, (hg.mem_iff c hc t).mpr ⟨hm, hn.symm⟩⟩

private theorem pairwise_selectedTests (h : Tree entries) :
    (selectedTests entries filters).Pairwise Before :=
  (groups_discover h).pairwise_before (Category.select_sublist _ _)

private theorem nodup_path_selectedTests (h : Tree entries) (root : String) :
    ((selectedTests entries filters).map (·.path root)).Nodup := by
  refine List.pairwise_map.mpr ((pairwise_selectedTests h).imp_of_mem fun ht ht' hb he => ?_)
  exact hb.parts_ne (parts_eq_of_path_eq (((mem_selectedTests_iff h).mp ht).1.not_mem_slash h)
    (((mem_selectedTests_iff h).mp ht').1.not_mem_slash h) he)

private theorem discover_relisted (h : Tree entries) {others : Entries}
    (hr : Relisted entries others) : Category.discover others = Category.discover entries :=
  (Category.ofTests_perm (inEntries_perm hr []) (nodup_parts_inEntries h [])).symm

variable (palette : Palette) (root : String) (options : Options)

private theorem runDirectory_of_ne_nil (h : Tree entries)
    (hn : selectedTests entries filters ≠ []) :
    runDirectory palette root entries filters options =
      conclude palette
        (warnings entries filters ++
          listing palette root options none (selectedTests entries filters))
        ((selectedTests entries filters).map (result root options)) := by
  have hs := Category.select_sublist (Category.discover entries) filters
  have hl := listing_flatMap palette root options (groups_discover h) hs
    fun c _ => (Option.some_ne_none c.name).symm
  rw [selectedTests] at hn ⊢
  rw [hl, map_result_flatMap, warnings, ← funext (Category.warning_eq (Category.discover entries))]
  rcases hc : Category.select (Category.discover entries) filters with ⟨chosen, idle⟩
  rw [hc] at hn hs
  have hne : chosen ≠ [] := by
    rintro rfl
    exact hn rfl
  have hd : Category.discover entries ≠ [] := by
    intro he
    rw [he] at hs
    exact hne (List.sublist_nil.mp hs)
  simp only [runDirectory, if_neg (mt List.isEmpty_iff.mp hd), hc,
    if_neg (mt List.isEmpty_iff.mp hne)]

private theorem exitCode_runDirectory_of_nil (h : Tree entries)
    (hn : selectedTests entries filters = []) :
    (runDirectory palette root entries filters options).exitCode = 1 := by
  have hs := Category.select_sublist (Category.discover entries) filters
  rw [selectedTests, List.flatMap_eq_nil_iff] at hn
  rcases hc : Category.select (Category.discover entries) filters with ⟨chosen, idle⟩
  rw [hc] at hn hs
  have he : chosen = [] := by
    refine List.eq_nil_iff_forall_not_mem.mpr fun c hm => ?_
    exact (groups_discover h).ne_nil c (hs.mem hm) (hn c hm)
  rw [runDirectory]
  split
  · rfl
  · simp only [hc, he, List.isEmpty_nil, if_true]

end

/-- What a run of the tests below a directory does: which it runs, in which order, and what it says
of them. -/
structure RunsOnce (entries : Entries) (root : String) (palette : Palette) (filters : List String)
    (options : Options) (tests : List FoundTest) (outcome : SuiteOutcome) (events : List Event) :
    Prop where
  /-- Those are run that the filters select among the test files of the tree. -/
  selected : ∀ t, t ∈ tests ↔ FileAt entries t.directories t.name t.text ∧
    ".test.nlm".toList <:+ t.name.toList ∧ Category.Selected filters t.category
  /-- None is run twice. -/
  ordered : tests.Pairwise Before
  paths : (tests.map (·.path root)).Nodup
  events : events = tests.flatMap fun t => TestResult.events (t.path root) t.text options
  counted : (tests.map (result root options)).countP (·.passed) +
    (tests.map (result root options)).countP (!·.passed) = tests.length
  transcript : tests ≠ [] → outcome.transcript = String.join ((warnings entries filters ++
    listing palette root options none tests ++ failureReport (tests.map (result root options)) ++
    ["", countsLine palette ((tests.map (result root options)).countP (·.passed))
      ((tests.map (result root options)).countP (!·.passed))]).map (· ++ "\n"))
  exitCode : outcome.exitCode = 0 ↔ tests ≠ [] ∧ ∀ t ∈ tests, (result root options t).passed

section
variable {disk : Disk} {path : String} {entries : Entries}

private theorem run_directory (h : disk path = .ok (.directory entries)) (color : Bool)
    (filters : List String) (options : Options) :
    run disk path color filters options = runDirectory ⟨color⟩ path entries filters options := by
  simp only [run, h]

private theorem events_directory (h : disk path = .ok (.directory entries)) (filters : List String)
    (options : Options) : events disk path filters options =
      (selectedTests entries filters).flatMap fun t =>
        TestResult.events (t.path path) t.text options := by
  simp only [events, h, selectedTests, List.flatMap_assoc]

private theorem runsOnce_runDirectory (h : Tree entries) (palette : Palette) (filters : List String)
    (options : Options) :
    RunsOnce entries path palette filters options (selectedTests entries filters)
      (runDirectory palette path entries filters options)
      ((selectedTests entries filters).flatMap fun t =>
        TestResult.events (t.path path) t.text options) := by
  constructor
  · intro t
    rw [mem_selectedTests_iff h, isTestName_iff]
  · exact pairwise_selectedTests h
  · exact nodup_path_selectedTests h path
  · rfl
  · rw [countP_passed_add_countP_failed, List.length_map]
  · intro hn
    rw [runDirectory_of_ne_nil palette path options h hn, conclude, closing_eq, unlines,
      ← List.append_assoc]
  · by_cases hn : selectedTests entries filters = []
    · rw [exitCode_runDirectory_of_nil palette path options h hn]
      simp [hn]
    · rw [runDirectory_of_ne_nil palette path options h hn, conclude, and_iff_right hn]
      simp

/-- A run of the tests below a directory runs each test file that the filters select once, in the
order of categories and paths, counts those that pass and those that fail, and succeeds exactly if
there are any and none fails. Every test file, at any depth, is in one category, which is named
after its directory. In which order the directories list their entries makes no difference. -/
theorem runs_selected_once (h : disk path = .ok (.directory entries)) (ht : Tree entries)
    (color : Bool) (filters : List String) (options : Options) :
    (∃ tests, RunsOnce entries path ⟨color⟩ filters options tests
      (run disk path color filters options) (events disk path filters options)) ∧
    (∀ directories name text, FileAt entries directories name text →
      ".test.nlm".toList <:+ name.toList → ∃ c ∈ Category.discover entries,
        c.name.toList = (['/'].intercalate (directories.map String.toList)).map
          (fun ch => if ch = '\\' then '/' else ch) ∧
        ∀ c' ∈ Category.discover entries, ⟨directories, name, text⟩ ∈ c'.tests ↔ c' = c) ∧
    ∀ (other : Disk) (others : Entries), other path = .ok (.directory others) →
      Relisted entries others →
        run other path color filters options = run disk path color filters options ∧
          events other path filters options = events disk path filters options := by
  refine ⟨⟨selectedTests entries filters, ?_⟩, ?_, ?_⟩
  · rw [run_directory h, events_directory h]
    exact runsOnce_runDirectory ht ⟨color⟩ filters options
  · intro directories name text hf hn
    have hm : ⟨directories, name, text⟩ ∈ inEntries [] entries :=
      mem_inEntries_iff.mpr ⟨hf, isTestName_iff.mpr hn⟩
    obtain ⟨c, hc, hname, hu⟩ := (groups_discover ht).existsUnique_mem hm
    refine ⟨c, hc, ?_, hu⟩
    rw [hname, category, String.toList_ofList, String.toList_intercalate]
    rfl
  · intro other others ho hr
    have hd := discover_relisted ht hr
    rw [run_directory h, run_directory ho, events_directory h, events_directory ho, selectedTests,
      selectedTests, runDirectory, runDirectory, hd]
    exact ⟨rfl, rfl⟩

end

/-- A directory that is named like a test, below one with a backslash in its name, is a category
like any other. A test in it that cannot be read is run, so the run fails, whichever filter selects
it and in whichever order the entries are listed. -/
theorem runs_selected_once_nested :
    let unreadable : String × Node := ("y.test.nlm", .file (.error .invalidText))
    let readable : String × Node := ("z.test.nlm", .file (.ok "---\n\n---\n@A\nsee @A"))
    let below : String × Node := ("x.test.nlm", .directory [unreadable])
    let first : Entries := [("a\\b", .directory [below, readable])]
    let second : Entries := [("a\\b", .directory [readable, below])]
    let disk : Entries → Disk := fun entries _ => .ok (.directory entries)
    let filters := ["a/b/x.test.nlm", "a", "/a/"]
    (∃ c ∈ Category.discover first, c.name.toList = "a/b/x.test.nlm".toList) ∧
      (run (disk second) "t" false filters {}).exitCode ≠ 0 := by
  intro unreadable readable below first second disk filters
  have hinner : Tree [unreadable] :=
    .mk (by simp [unreadable]) (by simp [unreadable]) (by simp [unreadable])
  have houter : Tree [below, readable] := by
    refine .mk (by simp [below, readable]) (by simp [below, readable]) fun name inner hm => ?_
    obtain ⟨-, rfl⟩ : name = "x.test.nlm" ∧ inner = [unreadable] := by
      simpa [below, readable] using hm
    exact hinner
  have htree : Tree first := by
    refine .mk (by simp [first]) (by simp [first]) fun name inner hm => ?_
    obtain ⟨-, rfl⟩ := by simpa [first] using hm
    exact houter
  have hr : Relisted first second := .inside _ _ (.perm (List.Perm.swap ..))
  have hd : disk first "t" = .ok (.directory first) := rfl
  obtain ⟨⟨tests, h⟩, hcat, hrun⟩ := runs_selected_once hd htree false filters {}
  have hy : FileAt first ["a\\b", "x.test.nlm"] "y.test.nlm" (.error .invalidText) :=
    .inside (.head _) (.inside (.head _) (.here (.head _)))
  constructor
  · obtain ⟨c, hc, hn, -⟩ := hcat _ _ _ hy (by decide)
    exact ⟨c, hc, hn⟩
  · rw [(hrun (disk second) second rfl hr).1]
    intro h0
    have hm := (h.selected ⟨_, _, _⟩).mpr ⟨hy, by decide, by decide⟩
    exact absurd ((h.exitCode.mp h0).2 _ hm)
      (by simp [result, TestResult.ofFile, TestResult.passed])

end ConceptMarkup.Suite
