import Mathlib.Data.List.Nodup
import ConceptMarkup.NameIndex

/-! What a name index holds, as a list of entries. As long as the hash map sends each name to the
place of its entry, the operations are those of a list of names with values. -/
namespace ConceptMarkup.NameIndex

variable {α : Type} {index : NameIndex α}

/-- The hash map has a name at a place exactly when the entry at that place has that name. -/
def WellFormed (index : NameIndex α) : Prop :=
  ∀ (name : String) (i : Nat), index.positions[name]? = some i ↔ index.keys[i]? = some name

theorem wellFormed_empty : ({} : NameIndex α).WellFormed := by
  intro name i
  simp [keys, toList]

/-- No name has two entries. -/
theorem WellFormed.nodup (h : index.WellFormed) : index.keys.Nodup := by
  rw [List.nodup_iff_getElem?_ne_getElem?]
  intro i j hij hj he
  have hi := (h _ i).mpr (he.trans (List.getElem?_eq_getElem hj))
  rw [(h _ j).mpr (List.getElem?_eq_getElem hj)] at hi
  have := Option.some.inj hi
  omega

theorem contains_iff (h : index.WellFormed) {name : String} :
    index.contains name ↔ name ∈ index.keys := by
  rw [contains, Std.HashMap.contains_eq_isSome_getElem?, Option.isSome_iff_exists,
    List.mem_iff_getElem?]
  exact exists_congr fun i => h name i

theorem getElem?_keys (index : NameIndex α) (i : Nat) :
    index.keys[i]? = index.entries[i]?.map (·.1) := by
  rw [keys, toList, List.getElem?_map, Array.getElem?_toList]

/-- The value of a name is that of its entry. -/
theorem get?_eq_some_iff (h : index.WellFormed) {name : String} {value : α} :
    index.get? name = some value ↔ (name, value) ∈ index.toList := by
  constructor
  · intro hv
    obtain ⟨i, hi, hv⟩ := Option.bind_eq_some_iff.mp hv
    obtain ⟨⟨key, _⟩, he, hv⟩ := Option.bind_eq_some_iff.mp hv
    cases hv
    have hk := (h name i).mp hi
    rw [getElem?_keys, he] at hk
    cases hk
    rw [toList, Array.mem_toList_iff]
    exact Array.mem_of_getElem? he
  · intro hm
    obtain ⟨i, hi⟩ := List.mem_iff_getElem?.mp hm
    have hk : index.keys[i]? = some name := by
      rw [keys, List.getElem?_map, hi]
      rfl
    rw [toList, Array.getElem?_toList] at hi
    simp [get?, (h name i).mpr hk, hi]

theorem get?_eq_none_iff (h : index.WellFormed) {name : String} :
    index.get? name = none ↔ name ∉ index.keys := by
  rw [Option.eq_none_iff_forall_ne_some, keys, List.mem_map]
  simp only [ne_eq, get?_eq_some_iff h]
  constructor
  · rintro hn ⟨⟨_, value⟩, hm, rfl⟩
    exact hn value hm
  · intro hn value hm
    exact hn ⟨_, hm, rfl⟩

private theorem lookup_eq_some_iff_mem {l : List (String × α)} (h : (l.map (·.1)).Nodup)
    {name : String} {value : α} : l.lookup name = some value ↔ (name, value) ∈ l := by
  induction l with
  | nil => simp
  | cons entry l ih =>
    obtain ⟨key, given⟩ := entry
    obtain ⟨hk, hl⟩ := List.nodup_cons.mp h
    rw [List.lookup_cons, List.mem_cons]
    by_cases he : name = key
    · subst he
      have hm : (name, value) ∉ l := fun hm => hk (List.mem_map.mpr ⟨_, hm, rfl⟩)
      simp [hm, eq_comm]
    · have hb : (name == key) = false := beq_eq_false_iff_ne.mpr he
      simp [hb, ih hl, he]

/-- To look a name up by its place is to look for it among the entries. -/
theorem get?_eq_lookup (h : index.WellFormed) (name : String) :
    index.get? name = index.toList.lookup name := by
  apply Option.ext
  intro value
  rw [get?_eq_some_iff h, lookup_eq_some_iff_mem h.nodup]

theorem contains_eq_lookup (h : index.WellFormed) (name : String) :
    index.contains name = (index.toList.lookup name).isSome := by
  rw [← get?_eq_lookup h, Bool.eq_iff_iff, contains_iff h, Option.isSome_iff_ne_none, ne_eq,
    get?_eq_none_iff h, not_not]

theorem exists_get?_of_mem (h : index.WellFormed) {name : String} (hn : name ∈ index.keys) :
    ∃ value, index.get? name = some value :=
  Option.ne_none_iff_exists'.mp fun hv => (get?_eq_none_iff h).mp hv hn

theorem get?_empty (name : String) : ({} : NameIndex α).get? name = none := by
  rw [get?_eq_none_iff wellFormed_empty]
  exact List.not_mem_nil

/-- An index is its names, each with its value. -/
theorem toList_eq_filterMap (h : index.WellFormed) :
    index.toList = index.keys.filterMap fun name => (index.get? name).map (name, ·) := by
  rw [keys, List.filterMap_map]
  conv_lhs => rw [← List.filterMap_some (l := index.toList)]
  apply List.filterMap_congr
  rintro ⟨name, value⟩ hm
  rw [Function.comp_apply, (get?_eq_some_iff h).mpr hm]
  rfl

theorem insert_of_mem (h : index.WellFormed) {name : String} (value : α)
    (hn : name ∈ index.keys) : index.insert name value = index := by
  rw [insert, if_pos ((contains_iff h).mpr hn)]

private theorem insert_of_not_mem (h : index.WellFormed) {name : String} (value : α)
    (hn : name ∉ index.keys) : index.insert name value =
      ⟨index.entries.push (name, value), index.positions.insert name index.entries.size⟩ := by
  rw [insert, if_neg fun hc => hn ((contains_iff h).mp hc)]

/-- A new name gets the last entry. -/
theorem toList_insert (h : index.WellFormed) {name : String} (value : α)
    (hn : name ∉ index.keys) :
    (index.insert name value).toList = index.toList ++ [(name, value)] := by
  rw [insert_of_not_mem h value hn]
  exact Array.toList_push

private theorem keys_insert_of_not_mem (h : index.WellFormed) {name : String} (value : α)
    (hn : name ∉ index.keys) : (index.insert name value).keys = index.keys ++ [name] := by
  rw [keys, toList_insert h value hn, List.map_append]
  rfl

theorem keys_insert (h : index.WellFormed) (name : String) (value : α) :
    (index.insert name value).keys =
      if name ∈ index.keys then index.keys else index.keys ++ [name] := by
  split
  · next hn => rw [insert_of_mem h value hn]
  · next hn => exact keys_insert_of_not_mem h value hn

theorem mem_keys_insert (h : index.WellFormed) {name : String} {value : α} {other : String} :
    other ∈ (index.insert name value).keys ↔ other ∈ index.keys ∨ other = name := by
  rw [keys_insert h]
  split
  · next hn => exact (or_iff_left_of_imp fun he => he ▸ hn).symm
  · rw [List.mem_append, List.mem_singleton]

theorem values_insert (h : index.WellFormed) {name : String} (value : α)
    (hn : name ∉ index.keys) : (index.insert name value).values = index.values ++ [value] := by
  rw [values, toList_insert h value hn, List.map_append]
  rfl

private theorem getElem?_concat_eq_some_iff {β : Type} {l : List β} {a b : β} {i : Nat} :
    (l ++ [b])[i]? = some a ↔ l[i]? = some a ∨ i = l.length ∧ b = a := by
  rcases Nat.lt_trichotomy i l.length with hlt | rfl | hgt
  · rw [List.getElem?_append_left hlt]
    simp [Nat.ne_of_lt hlt]
  · simp
  · rw [List.getElem?_eq_none (by simp; omega), List.getElem?_eq_none (Nat.le_of_lt hgt)]
    simp [Nat.ne_of_gt hgt]

theorem WellFormed.insert (h : index.WellFormed) (name : String) (value : α) :
    (index.insert name value).WellFormed := by
  by_cases hn : name ∈ index.keys
  · rw [insert_of_mem h value hn]
    exact h
  · intro other i
    have hl : index.entries.size = index.keys.length := by simp [keys, toList]
    rw [keys_insert_of_not_mem h value hn, insert_of_not_mem h value hn, hl,
      Std.HashMap.getElem?_insert, getElem?_concat_eq_some_iff]
    by_cases he : name = other
    · subst he
      have hi : index.keys[i]? ≠ some name := fun hi => hn (List.mem_of_getElem? hi)
      simp [hi, eq_comm]
    · simp [he, h other]

/-- A name that has a value keeps it, and a new name has the value inserted. -/
theorem get?_insert (h : index.WellFormed) (name : String) (value : α) (other : String) :
    (index.insert name value).get? other =
      (index.get? other).or (if name = other then some value else none) := by
  by_cases hn : name ∈ index.keys
  · rw [insert_of_mem h value hn]
    split
    · next he =>
      subst he
      obtain ⟨held, hv⟩ := exists_get?_of_mem h hn
      rw [hv, Option.some_or]
    · rw [Option.or_none]
  · rw [get?_eq_lookup (h.insert name value), toList_insert h value hn, List.lookup_append,
      ← get?_eq_lookup h, List.lookup_cons, List.lookup_nil]
    congr 1
    by_cases he : name = other
    · simp [he]
    · have hb : (other == name) = false := beq_eq_false_iff_ne.mpr (Ne.symm he)
      simp [he, hb]

private theorem modify_push {β : Type} (xs : Array β) (a : β) (f : β → β) :
    (xs.push a).modify xs.size f = xs.push (f a) := by
  grind

/-- To insert a value and change it at once is to insert the changed value. -/
theorem modify_insert (h : index.WellFormed) {name : String} (value : α) (f : α → α)
    (hn : name ∉ index.keys) :
    (index.insert name value).modify name f = index.insert name (f value) := by
  rw [insert_of_not_mem h value hn, insert_of_not_mem h (f value) hn, NameIndex.modify]
  simp only [Std.HashMap.getElem?_insert_self, modify_push]

/-- To change the value of a name changes its entry. -/
theorem toList_modify (h : index.WellFormed) (name : String) (f : α → α) :
    (index.modify name f).toList =
      index.toList.map fun (n, value) => (n, if n = name then f value else value) := by
  apply List.ext_getElem?
  intro j
  have hj : (index.modify name f).toList[j]? = index.toList[j]?.map fun (n, value) =>
      (n, if index.positions[name]? = some j then f value else value) := by
    rw [NameIndex.modify]
    cases index.positions[name]? with
    | none => simp
    | some i =>
      rw [toList, Array.toList_modify, List.getElem?_modify]
      by_cases hij : i = j
      · simp [hij, toList]
      · simp [hij, toList]
  rw [hj, List.getElem?_map]
  cases he : index.toList[j]? with
  | none => rfl
  | some e =>
    have hp : index.positions[name]? = some j ↔ e.1 = name := by
      rw [h, keys, List.getElem?_map, he, Option.map_some, Option.some_inj]
    simp only [Option.map_some, hp]

theorem keys_modify (h : index.WellFormed) (name : String) (f : α → α) :
    (index.modify name f).keys = index.keys := by
  rw [keys, toList_modify h, List.map_map]
  rfl

theorem WellFormed.modify (h : index.WellFormed) (name : String) (f : α → α) :
    (index.modify name f).WellFormed := by
  intro other i
  rw [keys_modify h, ← h]
  rw [NameIndex.modify]
  split <;> rfl

theorem get?_modify (h : index.WellFormed) (name other : String) (f : α → α) :
    (index.modify name f).get? other =
      (index.get? other).map fun value => if other = name then f value else value := by
  apply Option.ext
  intro v
  rw [get?_eq_some_iff (h.modify name f), toList_modify h, Option.map_eq_some_iff, List.mem_map]
  simp only [get?_eq_some_iff h]
  constructor
  · rintro ⟨⟨n, value⟩, hm, he⟩
    cases he
    exact ⟨value, hm, rfl⟩
  · rintro ⟨value, hm, rfl⟩
    exact ⟨(other, value), hm, rfl⟩

end ConceptMarkup.NameIndex
