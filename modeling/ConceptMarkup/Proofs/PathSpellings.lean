import ConceptMarkup.Path

/-! Spellings of a path. Of the parts between slashes only names and double dots are components, so
that a slash after a slash, a single dot between slashes and a slash at the end add nothing. -/
namespace ConceptMarkup.Path

def Same (path other : String) : Prop := components path = components other

instance (path other : String) : Decidable (Same path other) :=
  inferInstanceAs (Decidable (components path = components other))

private def inner (cs : List Char) : List Component := (cs.splitOn '/').filterMap component?

private theorem inner_append_slash (as bs : List Char) :
    inner (as ++ '/' :: bs) = inner as ++ inner bs := by
  rw [inner, List.splitOn_append_cons_self, List.filterMap_append, inner, inner]

private theorem components_append_slash (path rest : String) :
    components (path ++ "/" ++ rest) = components (path ++ "/") ++ inner rest.toList := by
  have hl : (path ++ "/" ++ rest).toList = path.toList ++ '/' :: rest.toList := by simp
  have hs : (path ++ "/").toList = path.toList ++ ['/'] := by simp
  have hn : List.filterMap component? ([].splitOn '/') = [] := rfl
  obtain ⟨part, parts, hp⟩ := List.exists_cons_of_ne_nil (List.splitOn_ne_nil '/' path.toList)
  simp only [components, hl, hs, List.splitOn_append_cons_self, List.head?_append, hp,
    List.head?_cons, Option.some_or, List.filterMap_append, hn, List.append_nil, inner,
    List.append_assoc]

private theorem same_append_slash (path : String) {rest other : String}
    (h : inner rest.toList = inner other.toList) :
    Same (path ++ "/" ++ rest) (path ++ "/" ++ other) := by
  rw [Same, components_append_slash, components_append_slash, h]

theorem same_double_slash (path rest : String) :
    Same (path ++ "//" ++ rest) (path ++ "/" ++ rest) := by
  have hr : path ++ "//" ++ rest = path ++ "/" ++ ("/" ++ rest) := by
    simp [← String.toList_inj]
  have hl : ("/" ++ rest).toList = [] ++ '/' :: rest.toList := by simp
  rw [hr]
  apply same_append_slash
  rw [hl, inner_append_slash]
  rfl

theorem same_inner_dot (path rest : String) :
    Same (path ++ "/./" ++ rest) (path ++ "/" ++ rest) := by
  have hr : path ++ "/./" ++ rest = path ++ "/" ++ ("./" ++ rest) := by
    simp [← String.toList_inj]
  have hl : ("./" ++ rest).toList = ['.'] ++ '/' :: rest.toList := by simp
  rw [hr]
  apply same_append_slash
  rw [hl, inner_append_slash]
  rfl

/-- A slash at the end makes another path of the empty one only. -/
theorem same_final_slash {path : String} (h : path ≠ "") : Same (path ++ "/") path := by
  have hs : (path ++ "/").toList = path.toList ++ ['/'] := by simp
  have hn : List.filterMap component? ([].splitOn '/') = [] := rfl
  obtain ⟨c, cs, hc⟩ := List.exists_cons_of_ne_nil (mt String.toList_eq_nil_iff.mp h)
  obtain ⟨part, parts, hp⟩ := List.exists_cons_of_ne_nil (List.splitOn_ne_nil '/' path.toList)
  rw [Same, components, components, hs, List.splitOn_append_cons_self, List.filterMap_append, hn,
    List.append_nil, List.head?_append, List.head?_append, hp, hc]
  rfl

/-- A dot at the start is a component, and double dots are not resolved. -/
example : Same "a/b" "a/.//b/." ∧ ¬ Same "./a" "a" ∧ ¬ Same "a/../b" "b" := by decide

end ConceptMarkup.Path
