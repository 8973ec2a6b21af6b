import Mathlib.Data.Nat.PSub
import ConceptMarkup.Proofs.EditScripts

/-! The edit distance in two rows of fixed length that are filled in turn. Characters and entries
are read by index, indices are one less than a counter, and entries of the last row but one are
written over. Counters stay between 1 and the lengths of the texts, and so no index misses. -/
namespace ConceptMarkup.EditDistance

def write? (row : List Nat) (j n : Nat) : Option (List Nat) :=
  if j < row.length then some (row.set j n) else none

/-- Writes entry `j` of the row of `i` characters, next to its entry before and below the row of one
character less. -/
def cell? (xs ys : List Char) (i : Nat) (prev curr : List Nat) (j : Nat) : Option (List Nat) := do
  let x ← xs[← Nat.psub i 1]?
  let y ← ys[← Nat.psub j 1]?
  let above ← prev[j]?
  let left ← curr[← Nat.psub j 1]?
  let diagonal ← prev[← Nat.psub j 1]?
  write? curr j (min (min (above + 1) (left + 1)) (diagonal + if x = y then 0 else 1))

/-- Writes the row of `i` characters over the second of two rows, and swaps the two. -/
def pass? (xs ys : List Char) (rows : List Nat × List Nat) (i : Nat) :
    Option (List Nat × List Nat) := do
  let first ← write? rows.2 0 i
  let curr ← (List.range' 1 ys.length).foldlM (cell? xs ys i rows.1) first
  some (curr, rows.1)

def distance? (xs ys : List Char) : Option Nat := do
  let rows ← (List.range' 1 xs.length).foldlM (pass? xs ys)
    (List.range (ys.length + 1), List.replicate (ys.length + 1) 0)
  rows.1[ys.length]?

private theorem IsRow.length {xs done ys : List Char} {row : List Nat} (h : IsRow xs done ys row) :
    row.length = ys.length + 1 := by
  induction h with
  | last => rfl
  | cons _ _ ih => rw [List.length_cons, ih, List.length_cons]

private theorem length_row (xs ys : List Char) : (row xs ys).length = ys.length + 1 :=
  (isRow_row xs ys).length

private theorem row_zero (xs ys : List Char) : (row xs ys)[0]? = some xs.length := by
  obtain ⟨n, rest, hr, hn⟩ := (isRow_row xs ys).exists_cons
  rw [hr, List.getElem?_cons_zero, least_nil_right_iff.mp hn]

private theorem row_concat (xs ys : List Char) (x : Char) :
    row (xs ++ [x]) ys = nextRow x ys (row xs ys) := by
  rw [row, List.foldl_append]
  rfl

private theorem getElem?_rowFrom {x y : Char} {left : Nat} {ys : List Char} {row : List Nat}
    {j above before diagonal : Nat} (hy : ys[j]? = some y) (ha : row[j + 1]? = some above)
    (hb : (left :: rowFrom x left ys row)[j]? = some before) (hd : row[j]? = some diagonal) :
    (rowFrom x left ys row)[j]? =
      some (min (min (above + 1) (before + 1)) (diagonal + if x = y then 0 else 1)) := by
  induction ys generalizing left row j with
  | nil => cases hy
  | cons y' ys ih =>
    match row with
    | [] => cases hd
    | [_] => cases ha
    | first :: second :: row =>
      cases j with
      | zero =>
        cases hy
        cases ha
        cases hb
        cases hd
        rfl
      | succ j => exact ih hy ha hb hd

private theorem getElem?_row_concat {xs ys : List Char} {x y : Char} {j above left diagonal : Nat}
    (hy : ys[j]? = some y) (ha : (row xs ys)[j + 1]? = some above)
    (hl : (row (xs ++ [x]) ys)[j]? = some left) (hd : (row xs ys)[j]? = some diagonal) :
    (row (xs ++ [x]) ys)[j + 1]? =
      some (min (min (above + 1) (left + 1)) (diagonal + if x = y then 0 else 1)) := by
  rw [row_concat] at hl ⊢
  cases hr : row xs ys with
  | nil =>
    rw [hr] at hd
    cases hd
  | cons first rest =>
    rw [hr] at ha hl hd
    exact getElem?_rowFrom hy ha hl hd

section

variable {xs ys : List Char} {i : Nat} {curr : List Nat}

private theorem take_succ (hi : i < xs.length) : xs.take (i + 1) = xs.take i ++ [xs[i]] := by
  rw [List.take_add_one, List.getElem?_eq_getElem hi, Option.toList_some]

private theorem cell?_eq {j : Nat} (hi : i < xs.length) (hj : j < ys.length)
    (hlen : curr.length = ys.length + 1) (hl : curr[j]? = (row (xs.take (i + 1)) ys)[j]?) :
    ∃ n, (row (xs.take (i + 1)) ys)[j + 1]? = some n ∧
      cell? xs ys (i + 1) (row (xs.take i) ys) curr (j + 1) = some (curr.set (j + 1) n) := by
  have hprev (m : Nat) (hm : m < ys.length + 1) : ∃ n, (row (xs.take i) ys)[m]? = some n :=
    ⟨_, List.getElem?_eq_getElem (by rwa [length_row])⟩
  obtain ⟨above, ha⟩ := hprev (j + 1) (by omega)
  obtain ⟨diagonal, hd⟩ := hprev j (by omega)
  have hleft := List.getElem?_eq_getElem (l := curr) (i := j) (by omega)
  have hx := List.getElem?_eq_getElem hi
  have hy := List.getElem?_eq_getElem hj
  rw [hleft, take_succ hi] at hl
  refine ⟨_, by rw [take_succ hi]; exact getElem?_row_concat hy ha hl.symm hd, ?_⟩
  have hpred (m : Nat) : Nat.psub (m + 1) 1 = some m := rfl
  have hlt : j + 1 < curr.length := by omega
  simp only [cell?, write?, hpred, hx, hy, ha, hd, hleft, hlt, Option.bind_eq_bind,
    Option.bind_some, ↓reduceIte]

private theorem cells?_eq (hi : i < xs.length) (hlen : curr.length = ys.length + 1)
    (hzero : curr[0]? = some (i + 1)) {k : Nat} (hk : k ≤ ys.length) :
    ∃ next, (List.range' 1 k).foldlM (cell? xs ys (i + 1) (row (xs.take i) ys)) curr = some next ∧
      next.length = ys.length + 1 ∧
      ∀ j ≤ k, next[j]? = (row (xs.take (i + 1)) ys)[j]? := by
  induction k with
  | zero =>
    refine ⟨curr, rfl, hlen, ?_⟩
    intro j hj
    obtain rfl := Nat.le_zero.mp hj
    rw [hzero, row_zero, List.length_take_of_le hi]
  | succ k ih =>
    obtain ⟨next, hn, hlen', hsame⟩ := ih (Nat.le_of_succ_le hk)
    obtain ⟨n, hrow, he⟩ := cell?_eq hi hk hlen' (hsame k (Nat.le_refl k))
    refine ⟨next.set (k + 1) n, ?_, ?_, ?_⟩
    · rw [List.range'_1_concat, List.foldlM_append, hn, Nat.add_comm 1 k]
      exact congrArg (· >>= some) he
    · rw [List.length_set, hlen']
    · intro j hj
      rcases Nat.lt_or_eq_of_le hj with hlt | rfl
      · rw [List.getElem?_set_ne (by omega), hsame j (Nat.le_of_lt_succ hlt)]
      · rw [List.getElem?_set_self (by omega), hrow]

private theorem pass?_eq (hi : i < xs.length) (hlen : curr.length = ys.length + 1) :
    pass? xs ys (row (xs.take i) ys, curr) (i + 1) =
      some (row (xs.take (i + 1)) ys, row (xs.take i) ys) := by
  have hwrite : write? curr 0 (i + 1) = some (curr.set 0 (i + 1)) := if_pos (by omega)
  obtain ⟨next, hn, hlen', hsame⟩ := cells?_eq hi (by rw [List.length_set, hlen])
    (List.getElem?_set_self (by omega)) (Nat.le_refl ys.length)
  have hnext : next = row (xs.take (i + 1)) ys := by
    apply List.ext_getElem?
    intro j
    rcases Nat.lt_or_ge ys.length j with hj | hj
    · rw [List.getElem?_eq_none (by omega), List.getElem?_eq_none (by rw [length_row]; omega)]
    · exact hsame j hj
  simp only [pass?, hwrite, hn, hnext, Option.bind_eq_bind, Option.bind_some]

private theorem passes?_eq {k : Nat} (hk : k ≤ xs.length) :
    ∃ curr, curr.length = ys.length + 1 ∧ (List.range' 1 k).foldlM (pass? xs ys)
      (List.range (ys.length + 1), List.replicate (ys.length + 1) 0) =
        some (row (xs.take k) ys, curr) := by
  induction k with
  | zero => exact ⟨_, List.length_replicate, rfl⟩
  | succ k ih =>
    obtain ⟨curr, hlen, hp⟩ := ih (Nat.le_of_succ_le hk)
    refine ⟨row (xs.take k) ys, length_row _ _, ?_⟩
    rw [List.range'_1_concat, List.foldlM_append, hp, Nat.add_comm 1 k]
    exact congrArg (· >>= some) (pass?_eq hk hlen)

end

/-- No index misses, and the last entry is the edit distance. -/
theorem distance?_eq (a b : String) : distance? a.toList b.toList = some (editDistance a b) := by
  obtain ⟨curr, -, hp⟩ := @passes?_eq a.toList b.toList _ (Nat.le_refl _)
  rw [List.take_length] at hp
  obtain ⟨n, hn, -⟩ := (isRow_row a.toList b.toList).getLast?
  have hlast := hn
  rw [List.getLast?_eq_getElem?, length_row, Nat.add_sub_cancel] at hlast
  rw [editDistance, hn]
  simp only [distance?, hp, hlast, Option.bind_eq_bind, Option.bind_some, Option.getD_some]

end ConceptMarkup.EditDistance
