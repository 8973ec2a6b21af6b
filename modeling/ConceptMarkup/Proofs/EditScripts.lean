import Mathlib.Data.List.Induction
import Mathlib.Order.Bounds.Basic
import Mathlib.Order.MinMax
import ConceptMarkup.EditDistance

/-! Edits of single characters, one after another. The rows of the edit distance hold the least
numbers of edits that turn one text into the beginnings of another, since the last characters of two
texts leave three ways to end. -/
namespace ConceptMarkup
namespace EditDistance

/-- One edit, at any place of a text: a character is put in, taken out, or replaced. -/
inductive Edit : List Char → List Char → Prop where
  | insert (as bs : List Char) (x : Char) : Edit (as ++ bs) (as ++ x :: bs)
  | delete (as bs : List Char) (x : Char) : Edit (as ++ x :: bs) (as ++ bs)
  | substitute (as bs : List Char) (x y : Char) : Edit (as ++ x :: bs) (as ++ y :: bs)

/-- One text is turned into another by `n` edits, each of what the one before it has left. -/
inductive Edits : Nat → List Char → List Char → Prop where
  | refl (cs : List Char) : Edits 0 cs cs
  | step {n : Nat} {as bs cs : List Char} : Edit as bs → Edits n bs cs → Edits (n + 1) as cs

private theorem Edit.symm {as bs : List Char} (h : Edit as bs) : Edit bs as := by
  cases h with
  | insert as bs x => exact .delete as bs x
  | delete as bs x => exact .insert as bs x
  | substitute as bs x y => exact .substitute as bs y x

private theorem Edit.append_right {as bs : List Char} (h : Edit as bs) (cs : List Char) :
    Edit (as ++ cs) (bs ++ cs) := by
  cases h with
  | insert as bs x => simpa using Edit.insert as (bs ++ cs) x
  | delete as bs x => simpa using Edit.delete as (bs ++ cs) x
  | substitute as bs x y => simpa using Edit.substitute as (bs ++ cs) x y

private theorem Edit.length_le {as bs : List Char} (h : Edit as bs) :
    bs.length ≤ as.length + 1 := by
  cases h with
  | insert as bs x => simp; omega
  | delete as bs x => simp; omega
  | substitute as bs x y => simp

private theorem eq_concat_of_append {xs as bs : List Char} {x : Char} (h : xs ++ [x] = as ++ bs) :
    bs = [] ∨ ∃ rest, bs = rest ++ [x] ∧ xs = as ++ rest := by
  cases bs using List.reverseRecOn with
  | nil => exact .inl rfl
  | append_singleton rest b =>
    rw [← List.append_assoc] at h
    obtain ⟨hx, rfl⟩ := List.append_singleton_inj.mp h
    exact .inr ⟨rest, rfl, hx⟩

private theorem Edit.concat_cases {xs ws : List Char} {x : Char} (h : Edit (xs ++ [x]) ws) :
    (∃ zs, ws = zs ++ [x] ∧ Edit xs zs) ∨ (∃ z, ws = xs ++ [x] ++ [z]) ∨ ws = xs ∨
      ∃ z, ws = xs ++ [z] := by
  generalize he : xs ++ [x] = vs at h
  cases h with
  | insert as bs c =>
    rcases eq_concat_of_append he with rfl | ⟨rest, rfl, rfl⟩
    · exact .inr (.inl ⟨c, by rw [List.append_nil]⟩)
    · exact .inl ⟨as ++ c :: rest, by simp, .insert as rest c⟩
  | delete as bs c =>
    rw [List.append_cons as] at he
    rcases eq_concat_of_append he with rfl | ⟨rest, rfl, rfl⟩
    · rw [List.append_nil] at he
      obtain ⟨rfl, -⟩ := List.append_singleton_inj.mp he
      exact .inr (.inr (.inl (List.append_nil _)))
    · exact .inl ⟨as ++ rest, by simp, by simpa using Edit.delete as rest c⟩
  | substitute as bs c d =>
    rw [List.append_cons as] at he
    rcases eq_concat_of_append he with rfl | ⟨rest, rfl, rfl⟩
    · rw [List.append_nil] at he
      obtain ⟨rfl, -⟩ := List.append_singleton_inj.mp he
      exact .inr (.inr (.inr ⟨d, rfl⟩))
    · exact .inl ⟨as ++ d :: rest, by simp, by simpa using Edit.substitute as rest c d⟩

namespace Edits
variable {m n : Nat} {as bs cs : List Char}

private theorem trans (h : Edits m as bs) (h' : Edits n bs cs) : Edits (m + n) as cs := by
  induction h with
  | refl cs =>
    rw [Nat.zero_add]
    exact h'
  | step e _ ih =>
    rw [Nat.add_right_comm]
    exact .step e (ih h')

private theorem symm (h : Edits n as bs) : Edits n bs as := by
  induction h with
  | refl cs => exact .refl cs
  | step e _ ih => exact ih.trans (.step e.symm (.refl _))

private theorem append_right (h : Edits n as bs) (cs : List Char) :
    Edits n (as ++ cs) (bs ++ cs) := by
  induction h with
  | refl bs => exact .refl _
  | step e _ ih => exact .step (e.append_right cs) ih

private theorem length_le (h : Edits n as bs) : bs.length ≤ as.length + n := by
  induction h with
  | refl cs => exact Nat.le_refl _
  | step e _ ih =>
    have := e.length_le
    omega

private theorem zero_iff : Edits 0 as bs ↔ as = bs := by
  constructor
  · intro h
    cases h
    rfl
  · rintro rfl
    exact .refl as

private theorem insertions (as bs : List Char) : Edits bs.length as (as ++ bs) := by
  induction bs generalizing as with
  | nil =>
    rw [List.append_nil]
    exact .refl as
  | cons b bs ih =>
    have h := Edit.insert as [] b
    rw [List.append_nil] at h
    rw [List.append_cons]
    exact .step h (ih (as ++ [b]))

private theorem concat (h : Edits n as bs) (x y : Char) :
    Edits (n + if x = y then 0 else 1) (as ++ [x]) (bs ++ [y]) := by
  have ha := h.append_right [x]
  split
  · next he =>
    subst he
    exact ha
  · exact ha.trans (.step (.substitute bs [] x y) (.refl _))

end Edits

/-- Whether no more than `n` edits, at most one of them at the end, turn `xs` with `x` after it into
`ys` with `y` after it. -/
inductive Within (n : Nat) (xs ys : List Char) (x y : Char) : Prop where
  /-- The `x` is taken out first. -/
  | delete {m : Nat} : m < n → Edits m xs (ys ++ [y]) → Within n xs ys x y
  /-- The `y` is put in last. -/
  | insert {m : Nat} : m < n → Edits m (xs ++ [x]) ys → Within n xs ys x y
  /-- The `x` is kept, if it is the `y`, or replaced. -/
  | both {m : Nat} : (m + if x = y then 0 else 1) ≤ n → Edits m xs ys → Within n xs ys x y

private theorem Within.mono {m n : Nat} {xs ys : List Char} {x y : Char} (h : Within m xs ys x y)
    (hmn : m ≤ n) : Within n xs ys x y := by
  cases h with
  | delete hm h => exact .delete (Nat.lt_of_lt_of_le hm hmn) h
  | insert hm h => exact .insert (Nat.lt_of_lt_of_le hm hmn) h
  | both hm h => exact .both (hm.trans hmn) h

private theorem Edits.within {n : Nat} {xs ys : List Char} {x y : Char}
    (h : Edits n (xs ++ [x]) (ys ++ [y])) : Within n xs ys x y := by
  induction n using Nat.strong_induction_on generalizing xs x with
  | _ n ih =>
    generalize hv : xs ++ [x] = vs at h
    generalize hw : ys ++ [y] = ws at h
    cases h with
    | refl =>
      obtain ⟨rfl, rfl⟩ := List.append_singleton_inj.mp (hv.trans hw.symm)
      exact .both (by simp) (.refl xs)
    | @step n _ us _ e h =>
      subst hv hw
      rcases e.concat_cases with ⟨zs, rfl, e'⟩ | ⟨z, rfl⟩ | rfl | ⟨z, rfl⟩
      · cases ih n n.lt_succ_self h with
        | delete hm h => exact .delete (Nat.succ_lt_succ hm) (.step e' h)
        | insert hm h => exact .insert (Nat.succ_lt_succ hm) (.step e h)
        | both hm h => exact .both (by omega) (.step e' h)
      · cases ih n n.lt_succ_self h with
        | delete hm h =>
          have hlt := hm.trans n.lt_succ_self
          exact (ih _ hlt h).mono hlt.le
        | insert hm h => exact .insert (Nat.succ_lt_succ hm) (.step e h)
        | both hm h => exact .insert (by omega) h
      · exact .delete n.lt_succ_self h
      · cases ih n n.lt_succ_self h with
        | delete hm h => exact .delete (hm.trans n.lt_succ_self) h
        | insert hm h => exact .insert (Nat.succ_lt_succ hm) (.step e h)
        | both hm h => exact .both (by split <;> omega) h

/-- The least number of edits that turn one text into another. -/
def Least (as bs : List Char) (n : Nat) : Prop := IsLeast {n | Edits n as bs} n

private theorem least_nil_left (bs : List Char) : Least [] bs bs.length := by
  refine ⟨Edits.insertions [] bs, fun n h => ?_⟩
  have := Edits.length_le h
  rwa [List.length_nil, Nat.zero_add] at this

private theorem Least.symm {as bs : List Char} {n : Nat} (h : Least as bs n) : Least bs as n :=
  ⟨Edits.symm h.1, fun _ h' => h.2 (Edits.symm h')⟩

private theorem Least.unique {as bs : List Char} {m n : Nat} (h : Least as bs m)
    (h' : Least as bs n) : m = n :=
  IsLeast.unique h h'

theorem least_nil_right_iff {as : List Char} {n : Nat} : Least as [] n ↔ n = as.length := by
  have h := (least_nil_left as).symm
  constructor
  · exact fun h' => h'.unique h
  · rintro rfl
    exact h

private theorem Least.concat {xs ys : List Char} {x y : Char} {above left diagonal : Nat}
    (ha : Least xs (ys ++ [y]) above) (hl : Least (xs ++ [x]) ys left)
    (hd : Least xs ys diagonal) : Least (xs ++ [x]) (ys ++ [y])
      (min (min (above + 1) (left + 1)) (diagonal + if x = y then 0 else 1)) := by
  have hdel : Edits (above + 1) (xs ++ [x]) (ys ++ [y]) := by
    have e := Edit.delete xs [] x
    rw [List.append_nil] at e
    exact .step e ha.1
  have hins : Edits (left + 1) (xs ++ [x]) (ys ++ [y]) := Edits.trans hl.1 (Edits.insertions ys [y])
  have hsub := Edits.concat hd.1 x y
  constructor
  · rcases min_choice (min (above + 1) (left + 1)) (diagonal + if x = y then 0 else 1) with he | he
    · rw [he]
      rcases min_choice (above + 1) (left + 1) with he | he
      · rw [he]
        exact hdel
      · rw [he]
        exact hins
    · rw [he]
      exact hsub
  · intro n h
    cases Edits.within h with
    | delete hm h =>
      have := ha.2 h
      omega
    | insert hm h =>
      have := hl.2 h
      omega
    | both hm h =>
      have := hd.2 h
      omega

/-- A row of `xs`: the least numbers of edits that turn it into `done` and into each text that
`done` becomes by further characters of `rest`. -/
inductive IsRow (xs : List Char) : (done rest : List Char) → List Nat → Prop where
  | last {done : List Char} {n : Nat} : Least xs done n → IsRow xs done [] [n]
  | cons {done ys : List Char} {y : Char} {n : Nat} {row : List Nat} :
    Least xs done n → IsRow xs (done ++ [y]) ys row → IsRow xs done (y :: ys) (n :: row)

theorem IsRow.exists_cons {xs done ys : List Char} {row : List Nat} (h : IsRow xs done ys row) :
    ∃ n rest, row = n :: rest ∧ Least xs done n := by
  cases h with
  | last hn => exact ⟨_, [], rfl, hn⟩
  | cons hn _ => exact ⟨_, _, rfl, hn⟩

theorem IsRow.getLast? {xs done ys : List Char} {row : List Nat} (h : IsRow xs done ys row) :
    ∃ n, row.getLast? = some n ∧ Least xs (done ++ ys) n := by
  induction h with
  | last hn => exact ⟨_, rfl, by rwa [List.append_nil]⟩
  | cons _ h ih =>
    obtain ⟨n, hr, hn⟩ := ih
    refine ⟨n, ?_, by rwa [List.append_cons]⟩
    rw [List.getLast?_cons, hr]
    rfl

private theorem isRow_range' (done ys : List Char) :
    IsRow [] done ys (List.range' done.length (ys.length + 1)) := by
  induction ys generalizing done with
  | nil => exact .last (least_nil_left done)
  | cons y ys ih =>
    have h := ih (done ++ [y])
    rw [List.length_append, List.length_singleton] at h
    exact .cons (least_nil_left done) h

private theorem IsRow.rowFrom {xs done ys : List Char} {row : List Nat} (h : IsRow xs done ys row)
    {x : Char} {left : Nat} (hl : Least (xs ++ [x]) done left) :
    IsRow (xs ++ [x]) done ys (left :: rowFrom x left ys row) := by
  induction h generalizing left with
  | last hn => exact .last hl
  | @cons done ys y diagonal row hd h ih =>
    obtain ⟨above, rest, rfl, ha⟩ := h.exists_cons
    exact .cons hl (ih (ha.concat hl hd))

private theorem IsRow.nextRow {xs ys : List Char} {row : List Nat} (h : IsRow xs [] ys row)
    (x : Char) : IsRow (xs ++ [x]) [] ys (nextRow x ys row) := by
  obtain ⟨n, rest, rfl, hn⟩ := h.exists_cons
  refine h.rowFrom (least_nil_right_iff.mpr ?_)
  rw [least_nil_right_iff.mp hn, List.length_append, List.length_singleton]

theorem isRow_row (xs ys : List Char) : IsRow xs [] ys (row xs ys) := by
  induction xs using List.reverseRecOn with
  | nil =>
    rw [row, List.foldl_nil, List.range_eq_range']
    exact isRow_range' [] ys
  | append_singleton xs x ih =>
    rw [row, List.foldl_append]
    exact ih.nextRow x

theorem least_editDistance (a b : String) : Least a.toList b.toList (editDistance a b) := by
  obtain ⟨n, hr, hn⟩ := (isRow_row a.toList b.toList).getLast?
  rw [editDistance, hr]
  exact hn

end EditDistance
open EditDistance

/-- The edit distance of two texts is the least number of edits that turn the one into the other. So
it is a distance: symmetric, zero for equal texts only, and no longer than the way over a third. -/
theorem editDistance_isLeast (a b : String) :
    IsLeast {n | Edits n a.toList b.toList} (editDistance a b) ∧
      editDistance b a = editDistance a b ∧
      (∀ c, editDistance a c ≤ editDistance a b + editDistance b c) ∧
      (editDistance a b = 0 ↔ a = b) := by
  have h := least_editDistance a b
  refine ⟨h, ?_, fun c => ?_, ?_⟩
  · exact (least_editDistance b a).unique h.symm
  · exact (least_editDistance a c).2 (Edits.trans h.1 (least_editDistance b c).1)
  · rw [← String.toList_inj, ← Edits.zero_iff]
    constructor
    · intro he
      exact he ▸ h.1
    · exact fun h' => Nat.le_zero.mp (h.2 h')

end ConceptMarkup
