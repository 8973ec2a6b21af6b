import Mathlib.Data.List.Nodup
import ConceptMarkup.Expectation.Category

/-! The test files of a directory tree. A search finds each of them once, however deep it lies, and
nothing besides; the order in which directories list their entries moves what is found and changes
nothing else. -/
namespace ConceptMarkup

namespace Disk

/-- A file of a directory tree, by the names of the directories that lead to it and its own. -/
inductive FileAt : Entries → List String → String → Except Failure String → Prop where
  | here {entries : Entries} {name : String} {text : Except Failure String} :
      (name, Node.file text) ∈ entries → FileAt entries [] name text
  | inside {entries inner : Entries} {directory name : String} {directories : List String}
      {text : Except Failure String} :
      (directory, Node.directory inner) ∈ entries → FileAt inner directories name text →
        FileAt entries (directory :: directories) name text

/-- A directory tree: the entries of each directory have different names, and no name has a slash
in it. -/
inductive Tree : Entries → Prop where
  | mk {entries : Entries} : (entries.map (·.1)).Nodup → (∀ e ∈ entries, '/' ∉ e.1.toList) →
      (∀ name inner, (name, Node.directory inner) ∈ entries → Tree inner) → Tree entries

/-- Two listings of one directory tree: the entries of each directory may come in any order. -/
inductive Relisted : Entries → Entries → Prop where
  | perm {entries others : Entries} : entries.Perm others → Relisted entries others
  | inside {inner others : Entries} (name : String) (rest : Entries) : Relisted inner others →
      Relisted ((name, Node.directory inner) :: rest) ((name, Node.directory others) :: rest)
  | trans {first second third : Entries} :
      Relisted first second → Relisted second third → Relisted first third

private theorem FileAt.mono {entries others : Entries} (hs : entries ⊆ others)
    {directories : List String}
    {name : String} {text : Except Failure String} (h : FileAt entries directories name text) :
    FileAt others directories name text := by
  cases h with
  | here hm => exact .here (hs hm)
  | inside hm h => exact .inside (hs hm) h

theorem FileAt.not_mem_slash {entries : Entries} {directories : List String} {name : String}
    {text : Except Failure String} (h : FileAt entries directories name text) (ht : Tree entries) :
    ∀ part ∈ directories ++ [name], '/' ∉ part.toList := by
  induction h with
  | here hm =>
    cases ht with
    | mk _ hs _ => simpa using hs _ hm
  | inside hm _ ih =>
    cases ht with
    | mk _ hs hi => exact List.forall_mem_cons.mpr ⟨hs _ hm, ih (hi _ _ hm)⟩

end Disk

namespace FoundTest
open Disk

theorem isTestName_iff {name : String} :
    isTestName name ↔ ".test.nlm".toList <:+ name.toList := List.isSuffixOf_iff_suffix

private theorem inEntries_eq_flatMap (directories : List String) (entries : Entries) :
    inEntries directories entries = entries.flatMap fun e => inNode directories e.1 e.2 := by
  induction entries with
  | nil => rfl
  | cons e entries ih => rw [inEntries, ih, List.flatMap_cons]

mutual

private theorem fileAt_of_mem_inEntries {directories : List String} {entries : Entries}
    {t : FoundTest}
    (h : t ∈ inEntries directories entries) : ∃ below, t.directories = directories ++ below ∧
      isTestName t.name ∧ FileAt entries below t.name t.text := by
  match entries with
  | [] => cases h
  | (name, node) :: entries =>
    rw [inEntries] at h
    rcases List.mem_append.mp h with h | h
    · obtain ⟨below, hd, hn, hf⟩ := fileAt_of_mem_inNode h
      exact ⟨below, hd, hn, hf.mono (by simp)⟩
    · obtain ⟨below, hd, hn, hf⟩ := fileAt_of_mem_inEntries h
      exact ⟨below, hd, hn, hf.mono (List.subset_cons_self _ _)⟩

private theorem fileAt_of_mem_inNode {directories : List String} {name : String} {node : Node}
    {t : FoundTest} (h : t ∈ inNode directories name node) :
    ∃ below, t.directories = directories ++ below ∧
      isTestName t.name ∧ FileAt [(name, node)] below t.name t.text := by
  match node with
  | .directory entries =>
    obtain ⟨below, hd, hn, hf⟩ := fileAt_of_mem_inEntries h
    refine ⟨name :: below, ?_, hn, .inside (List.mem_singleton_self _) hf⟩
    rw [hd, List.append_assoc, List.singleton_append]
  | .file text =>
    rw [inNode] at h
    split at h
    · next hn =>
      obtain rfl := List.mem_singleton.mp h
      exact ⟨[], (List.append_nil _).symm, hn, .here (List.mem_singleton_self _)⟩
    · cases h

end

private theorem mem_inEntries_of_fileAt {entries : Entries} {below : List String} {name : String}
    {text : Except Failure String} (h : FileAt entries below name text) (hn : isTestName name)
    (directories : List String) :
    ⟨directories ++ below, name, text⟩ ∈ inEntries directories entries := by
  induction h generalizing directories with
  | here hm =>
    rw [inEntries_eq_flatMap, List.mem_flatMap]
    refine ⟨_, hm, ?_⟩
    simp [inNode, hn]
  | @inside _ _ directory _ _ _ hm _ ih =>
    rw [inEntries_eq_flatMap, List.mem_flatMap]
    refine ⟨_, hm, ?_⟩
    have := ih hn (directories ++ [directory])
    rwa [List.append_assoc, List.singleton_append] at this

/-- What is found below a directory is its test files. -/
theorem mem_inEntries_iff {entries : Entries} {t : FoundTest} :
    t ∈ inEntries [] entries ↔
      FileAt entries t.directories t.name t.text ∧ isTestName t.name := by
  constructor
  · intro h
    obtain ⟨below, hd, hn, hf⟩ := fileAt_of_mem_inEntries h
    rw [List.nil_append] at hd
    exact ⟨hd ▸ hf, hn⟩
  · rintro ⟨hf, hn⟩
    exact mem_inEntries_of_fileAt hf hn []

/-- The order of the entries moves what is found below them. -/
theorem inEntries_perm {entries others : Entries} (h : Relisted entries others)
    (directories : List String) :
    (inEntries directories entries).Perm (inEntries directories others) := by
  induction h generalizing directories with
  | perm hp =>
    rw [inEntries_eq_flatMap, inEntries_eq_flatMap]
    exact hp.flatMap_right _
  | inside name rest _ ih => exact (ih (directories ++ [name])).append_right _
  | trans _ _ ih₁ ih₂ => exact (ih₁ directories).trans (ih₂ directories)

private theorem exists_parts_of_mem_inNode {directories : List String} {name : String} {node : Node}
    {t : FoundTest} (h : t ∈ inNode directories name node) :
    ∃ rest, t.parts = directories ++ name :: rest := by
  obtain ⟨below, hd, -, hf⟩ := fileAt_of_mem_inNode h
  rw [parts, hd, List.append_assoc]
  cases hf with
  | here hm =>
    obtain ⟨rfl, -⟩ := Prod.mk.inj (List.mem_singleton.mp hm)
    exact ⟨[], rfl⟩
  | inside hm _ =>
    obtain ⟨rfl, -⟩ := Prod.mk.inj (List.mem_singleton.mp hm)
    exact ⟨_, rfl⟩

/-- No file is found twice. -/
theorem nodup_parts_inEntries {entries : Entries} (h : Tree entries) (directories : List String) :
    ((inEntries directories entries).map (·.parts)).Nodup := by
  induction h generalizing directories with
  | mk hn _ _ ih =>
    rw [inEntries_eq_flatMap, List.Nodup, List.pairwise_map, List.pairwise_flatMap]
    constructor
    · rintro ⟨name, node⟩ hm
      cases node with
      | file text =>
        rw [inNode]
        split
        · exact List.pairwise_singleton _ _
        · exact .nil
      | directory inner => exact List.pairwise_map.mp (ih name inner hm (directories ++ [name]))
    · refine (List.pairwise_map.mp hn).imp fun hne t ht t' ht' he => hne ?_
      obtain ⟨rest, hr⟩ := exists_parts_of_mem_inNode ht
      obtain ⟨rest', hr'⟩ := exists_parts_of_mem_inNode ht'
      rw [hr, hr', List.append_cancel_left_eq] at he
      exact (List.cons.inj he).1

private theorem intercalate_slash_inj {parts others : List String} (hp : parts ≠ [])
    (ho : others ≠ [])
    (hs : ∀ part ∈ parts, '/' ∉ part.toList) (hs' : ∀ part ∈ others, '/' ∉ part.toList)
    (h : "/".intercalate parts = "/".intercalate others) : parts = others := by
  have hj : ∀ {ps : List String}, ps ≠ [] → (∀ part ∈ ps, '/' ∉ part.toList) →
      ("/".intercalate ps).toList.splitOn '/' = ps.map String.toList := by
    intro ps hne hn
    rw [String.toList_intercalate]
    exact List.splitOn_intercalate '/' (by simpa using hn) (by simpa using hne)
  have he := hj hp hs
  rw [h, hj ho hs'] at he
  exact (List.map_injective_iff.mpr fun _ _ => String.toList_inj.mp) he.symm

/-- Different files have different paths. -/
theorem parts_eq_of_path_eq {root : String} {t t' : FoundTest}
    (hs : ∀ part ∈ t.parts, '/' ∉ part.toList) (hs' : ∀ part ∈ t'.parts, '/' ∉ part.toList)
    (h : t.path root = t'.path root) : t.parts = t'.parts := by
  have hn : ∀ t : FoundTest, t.parts ≠ [] := fun t => List.append_ne_nil_of_right_ne_nil _ (by simp)
  refine intercalate_slash_inj (hn t) (hn t') hs hs' ?_
  rw [path, path, Path.join, Path.join] at h
  split at h
  · exact String.append_right_inj _ |>.mp h
  · exact String.append_right_inj _ |>.mp h

end FoundTest

end ConceptMarkup
