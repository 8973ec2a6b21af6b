import Mathlib.Data.List.Dedup
import Mathlib.Data.List.Forall2
import Mathlib.Data.List.Induction
import ConceptMarkup.Proofs.PathSpellings
import ConceptMarkup.Store

/-! A store and its history. What is open after any steps is decided, path by path, by the last step
that wrote to the path: an opening or an update leaves its text there, freshly parsed and analysed,
and a closing leaves nothing. How a path was spelt makes no difference. -/
namespace ConceptMarkup.Store

open List (Forall₂)

inductive Step where
  | openPath (path source : String)
  | update (path source : String)
  | close (path : String)
  | get (path : String)
  | size
  | isEmpty
deriving DecidableEq, Repr

inductive Answer where
  /-- The document that has just been stored. -/
  | stored (document : AnalyzedDocument)
  /-- The document that is or was open at a path, if any. -/
  | found (document : Option AnalyzedDocument)
  | count (n : Nat)
  | verdict (b : Bool)
deriving DecidableEq, Repr

def step (s : Store) : Step → Answer × Store
  | .openPath path source => (.stored (s.openPath path source).1, (s.openPath path source).2)
  | .update path source => (.stored (s.update path source).1, (s.update path source).2)
  | .close path => (.found (s.close path).1, (s.close path).2)
  | .get path => (.found (s.get? path), s)
  | .size => (.count s.size, s)
  | .isEmpty => (.verdict s.isEmpty, s)

def run (s : Store) (steps : List Step) : Store := steps.foldl (fun s step => (s.step step).2) s

def answers (s : Store) : List Step → List Answer
  | [] => []
  | step :: steps => (s.step step).1 :: answers (s.step step).2 steps

namespace Step

def target? : Step → Option (List Component)
  | openPath path _ | update path _ | close path => some (Path.components path)
  | get _ | size | isEmpty => none

def text? : Step → Option String
  | openPath _ source | update _ source => some source
  | close _ | get _ | size | isEmpty => none

/-- The last step that writes to a path, given by its components. -/
def lastWrite? (steps : List Step) (key : List Component) : Option Step :=
  (steps.filter (·.target? = some key)).getLast?

def textAt? (steps : List Step) (key : List Component) : Option String :=
  (lastWrite? steps key).bind text?

def openPaths (steps : List Step) : List (List Component) :=
  (steps.filterMap target?).dedup.filter fun key => (textAt? steps key).isSome

/-- Two steps that differ in the spelling of their path and in nothing else. -/
inductive Respelt : Step → Step → Prop where
  | openPath {path other : String} (source : String) :
      Path.Same path other → Respelt (openPath path source) (openPath other source)
  | update {path other : String} (source : String) :
      Path.Same path other → Respelt (update path source) (update other source)
  | close {path other : String} : Path.Same path other → Respelt (close path) (close other)
  | get {path other : String} : Path.Same path other → Respelt (get path) (get other)
  | size : Respelt size size
  | isEmpty : Respelt isEmpty isEmpty

private theorem lastWrite?_concat (steps : List Step) (step : Step) (key : List Component) :
    lastWrite? (steps ++ [step]) key =
      if step.target? = some key then some step else lastWrite? steps key := by
  rw [lastWrite?, List.filter_append]
  split
  · next h =>
    rw [List.filter_cons_of_pos (by simpa using h), List.filter_nil, List.getLast?_concat]
  · next h =>
    rw [List.filter_cons_of_neg (by simpa using h), List.filter_nil, List.append_nil, lastWrite?]

private theorem textAt?_concat (steps : List Step) (step : Step) (key : List Component) :
    textAt? (steps ++ [step]) key =
      if step.target? = some key then step.text? else textAt? steps key := by
  rw [textAt?, lastWrite?_concat]
  split
  · rfl
  · rfl

private theorem mem_openPaths_iff {steps : List Step} {key : List Component} :
    key ∈ openPaths steps ↔ (textAt? steps key).isSome := by
  rw [openPaths, List.mem_filter, List.mem_dedup, List.mem_filterMap]
  refine and_iff_right_of_imp fun h => ?_
  obtain ⟨text, ht⟩ := Option.isSome_iff_exists.mp h
  obtain ⟨step, hs, -⟩ := Option.bind_eq_some_iff.mp ht
  have hm := List.mem_filter.mp (List.mem_of_getLast? hs)
  exact ⟨step, hm.1, by simpa using hm.2⟩

end Step

open Step

private theorem getElem?_step (s : Store) (step : Step) (key : List Component) :
    (s.step step).2.documents[key]? = if step.target? = some key then
      step.text?.map (AnalyzedDocument.ofSource · s.options) else s.documents[key]? := by
  cases step with
  | openPath path source =>
    simp [Store.step, openPath, update, target?, text?, Std.HashMap.getElem?_insert]
  | update path source =>
    simp [Store.step, update, target?, text?, Std.HashMap.getElem?_insert]
  | close path => simp [Store.step, close, target?, text?, Std.HashMap.getElem?_erase]
  | get path => simp [Store.step, target?]
  | size => simp [Store.step, target?]
  | isEmpty => simp [Store.step, target?]

private theorem options_step (s : Store) (step : Step) : (s.step step).2.options = s.options := by
  cases step <;> rfl

private theorem run_cons (s : Store) (step : Step) (steps : List Step) :
    s.run (step :: steps) = (s.step step).2.run steps := rfl

private theorem run_concat (s : Store) (steps : List Step) (step : Step) :
    s.run (steps ++ [step]) = ((s.run steps).step step).2 :=
  List.foldl_concat ..

private theorem options_run (s : Store) (steps : List Step) :
    (s.run steps).options = s.options := by
  induction steps using List.reverseRecOn with
  | nil => rfl
  | append_singleton steps step ih => rw [run_concat, options_step, ih]

variable (options : Options) (steps : List Step)

private theorem documents_run (key : List Component) :
    ((ofOptions options).run steps).documents[key]? =
      (textAt? steps key).map (AnalyzedDocument.ofSource · options) := by
  induction steps using List.reverseRecOn with
  | nil => exact Std.HashMap.getElem?_empty
  | append_singleton steps step ih =>
    have ho : ((ofOptions options).run steps).options = options := options_run _ steps
    rw [run_concat, getElem?_step, textAt?_concat, ih, ho]
    split
    · rfl
    · rfl

private theorem get?_run (path : String) : ((ofOptions options).run steps).get? path =
    (textAt? steps (Path.components path)).map (AnalyzedDocument.ofSource · options) :=
  documents_run options steps _

private theorem size_run : ((ofOptions options).run steps).size = (openPaths steps).length := by
  have hn : (openPaths steps).Nodup := (List.nodup_dedup _).filter _
  have hp : ((ofOptions options).run steps).documents.keys.Perm (openPaths steps) := by
    refine (List.perm_ext_iff_of_nodup Std.HashMap.nodup_keys hn).mpr fun key => ?_
    rw [Std.HashMap.mem_keys, Std.HashMap.mem_iff_isSome_getElem?, documents_run,
      Option.isSome_map, mem_openPaths_iff]
  rw [size, ← Std.HashMap.length_keys, hp.length_eq]

private theorem isEmpty_eq (s : Store) : s.isEmpty = decide (s.size = 0) := by
  rw [isEmpty, Std.HashMap.isEmpty_eq_size_eq_zero]
  rfl

namespace Answer

/-- What a step answers after others: the last write to its path decides. -/
def after : Step → Answer
  | .openPath _ source | .update _ source => .stored (.ofSource source options)
  | .close path | .get path =>
    .found ((textAt? steps (Path.components path)).map (AnalyzedDocument.ofSource · options))
  | .size => .count (openPaths steps).length
  | .isEmpty => .verdict (decide ((openPaths steps).length = 0))

def history (steps : List Step) : List Step → List Answer
  | [] => []
  | step :: rest => after options steps step :: history (steps ++ [step]) rest

end Answer

private theorem answer_step (step : Step) :
    (((ofOptions options).run steps).step step).1 = .after options steps step := by
  have ho : ((ofOptions options).run steps).options = options := options_run _ steps
  cases step with
  | openPath path source => simp [Store.step, openPath, update, ho, Answer.after]
  | update path source => simp [Store.step, update, ho, Answer.after]
  | close path => simp only [Store.step, close, get?_run, Answer.after]
  | get path => simp only [Store.step, get?_run, Answer.after]
  | size => simp only [Store.step, size_run, Answer.after]
  | isEmpty => simp only [Store.step, isEmpty_eq, size_run, Answer.after]

private theorem answers_run (rest : List Step) :
    ((ofOptions options).run steps).answers rest = Answer.history options steps rest := by
  induction rest generalizing steps with
  | nil => rfl
  | cons step rest ih =>
    rw [answers, answer_step, ← run_concat, ih]
    rfl

private theorem step_respelt (s : Store) {step other : Step} (h : Respelt step other) :
    s.step step = s.step other := by
  cases h with
  | openPath source hp => simp only [Store.step, openPath, update, show _ = _ from hp]
  | update source hp => simp only [Store.step, update, show _ = _ from hp]
  | close hp => simp only [Store.step, close, get?, show _ = _ from hp]
  | get hp => simp only [Store.step, get?, show _ = _ from hp]
  | size => rfl
  | isEmpty => rfl

private theorem respelt (s : Store) {steps others : List Step} (h : Forall₂ Respelt steps others) :
    s.run steps = s.run others ∧ s.answers steps = s.answers others := by
  induction h generalizing s with
  | nil => exact ⟨rfl, rfl⟩
  | @cons step other steps others hs _ ih =>
    have he := step_respelt s hs
    obtain ⟨hr, ha⟩ := ih (s.step other).2
    constructor
    · rw [run_cons, run_cons, he, hr]
    · rw [answers, answers, he, ha]

/-- A store after some steps: what it holds and what the next step does to it. -/
structure LastWriteWins (s : Store) : Prop where
  get : ∀ path d, s.get? path = some d ↔ ∃ step text,
    lastWrite? steps (Path.components path) = some step ∧ step.text? = some text ∧
      d = ⟨text, Document.parse text, analyze (Document.parse text) options⟩
  opened : ∀ path text, (s.openPath path text).2.get? path = some (s.openPath path text).1 ∧
    (s.openPath path text).1 = .ofSource text options
  updated : ∀ path text, (s.update path text).2.get? path = some (s.update path text).1 ∧
    (s.update path text).1 = .ofSource text options
  closed : ∀ path, (s.close path).1 = s.get? path ∧ (s.close path).2.get? path = none
  others : ∀ path other, ¬ Path.Same path other → (s.close path).2.get? other = s.get? other
  size : s.size = (openPaths steps).length
  isEmpty : s.isEmpty ↔ s.size = 0

private theorem lastWriteWins_run :
    LastWriteWins options steps ((ofOptions options).run steps) := by
  have ho : ((ofOptions options).run steps).options = options := options_run _ steps
  have hu : ∀ path text,
      (((ofOptions options).run steps).update path text).2.get? path =
          some (((ofOptions options).run steps).update path text).1 ∧
        (((ofOptions options).run steps).update path text).1 = .ofSource text options := by
    intro path text
    simp [update, get?, ho]
  constructor
  · intro path d
    rw [get?_run, Option.map_eq_some_iff, textAt?]
    constructor
    · rintro ⟨text, ht, rfl⟩
      obtain ⟨step, hs, ht⟩ := Option.bind_eq_some_iff.mp ht
      exact ⟨step, text, hs, ht, rfl⟩
    · rintro ⟨step, text, hs, ht, rfl⟩
      exact ⟨text, Option.bind_eq_some_iff.mpr ⟨step, hs, ht⟩, rfl⟩
  · exact hu
  · exact hu
  · intro path
    exact ⟨rfl, by simp [close, get?]⟩
  · intro path other h
    have hk : Path.components path ≠ Path.components other := h
    simp [close, get?, Std.HashMap.getElem?_erase, hk]
  · exact size_run options steps
  · rw [isEmpty_eq, decide_eq_true_eq]

/-- Of all that was done to a path the last write counts, in what a store holds after any steps and
in what each of them has answered. Only the components of a path matter, so that steps with their
paths spelt otherwise lead to the same store by the same answers. -/
theorem last_write_wins :
    LastWriteWins options steps ((ofOptions options).run steps) ∧
      (ofOptions options).answers steps = Answer.history options [] steps ∧
      (∀ others, Forall₂ Respelt steps others →
        (ofOptions options).run steps = (ofOptions options).run others ∧
          (ofOptions options).answers steps = (ofOptions options).answers others) ∧
      ∀ path rest, Path.Same (path ++ "//" ++ rest) (path ++ "/" ++ rest) ∧
        Path.Same (path ++ "/./" ++ rest) (path ++ "/" ++ rest) ∧
        (path ≠ "" → Path.Same (path ++ "/") path) :=
  ⟨lastWriteWins_run options steps, answers_run options [] steps,
    fun _ h => respelt (ofOptions options) h,
    fun path rest => ⟨Path.same_double_slash path rest, Path.same_inner_dot path rest,
      Path.same_final_slash⟩⟩

/-- A path is closed under one spelling and opened again under another, while a second path keeps
its text. -/
theorem last_write_wins_under_other_spellings :
    let steps : List Step :=
      [.openPath "a/b" "@Cat", .update "c" "@Dog", .close "a//b", .size, .update "a/./b" "@Cow"]
    let others : List Step :=
      [.openPath "a/b/" "@Cat", .update "c" "@Dog", .close "a/b", .size, .update "a/b" "@Cow"]
    Forall₂ Respelt steps others ∧
      (ofOptions {}).answers steps = (ofOptions {}).answers others ∧
      ((ofOptions {}).run steps).get? "a/b" =
        some ⟨"@Cow", Document.parse "@Cow", analyze (Document.parse "@Cow") {}⟩ ∧
      ((ofOptions {}).run steps).size = 2 ∧ "a/b" ≠ "" ∧ Path.Same ("a/b" ++ "/") "a/b" := by
  intro steps others
  have hs : Forall₂ Respelt steps others :=
    .cons (.openPath _ (by decide)) (.cons (.update _ rfl) (.cons (.close (by decide))
      (.cons .size (.cons (.update _ (by decide)) .nil))))
  obtain ⟨hw, -, hr, hp⟩ := last_write_wins {} steps
  refine ⟨hs, (hr others hs).2, ?_, hw.size.trans (by decide), by decide,
    (hp "a/b" "").2.2 (by decide)⟩
  exact (hw.get "a/b" _).mpr ⟨.update "a/./b" "@Cow", "@Cow", by decide, rfl, rfl⟩

end ConceptMarkup.Store
