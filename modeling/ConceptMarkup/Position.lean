import ConceptMarkup.Text.Units

/-! Places in a text and ranges between them. A place has a line and a column, both counted from 1,
the column in characters, and an offset in bytes, counted from 0. Only a line feed ends a line. -/
namespace ConceptMarkup

structure Position where
  line : Nat
  column : Nat
  offset : Nat
deriving DecidableEq, Repr

namespace Position

def start : Position := ⟨1, 1, 0⟩

def advance (p : Position) (c : Char) : Position :=
  if c = '\n' then ⟨p.line + 1, 1, p.offset + c.utf8Size⟩
  else ⟨p.line, p.column + 1, p.offset + c.utf8Size⟩

def after (p : Position) (cs : List Char) : Position := cs.foldl advance p

/-- Places are ordered by line and column; the offset, which an editor may not know, plays no
part. -/
instance : LE Position where
  le p q := p.line < q.line ∨ p.line = q.line ∧ p.column ≤ q.column

instance (p q : Position) : Decidable (p ≤ q) :=
  inferInstanceAs (Decidable (p.line < q.line ∨ p.line = q.line ∧ p.column ≤ q.column))

@[simp] theorem after_nil (p : Position) : p.after [] = p := rfl

@[simp] theorem after_cons (p : Position) (c : Char) (cs : List Char) :
    p.after (c :: cs) = (p.advance c).after cs := rfl

@[simp] theorem after_append (p : Position) (as bs : List Char) :
    p.after (as ++ bs) = (p.after as).after bs := by
  simp [after]

theorem offset_advance (p : Position) (c : Char) :
    (p.advance c).offset = p.offset + c.utf8Size := by
  unfold advance; split <;> rfl

@[simp] theorem offset_after (p : Position) (cs : List Char) :
    (p.after cs).offset = p.offset + Text.byteLength cs := by
  induction cs generalizing p with
  | nil => rfl
  | cons c cs ih => simp [ih, offset_advance, Nat.add_assoc]

end Position

/-- A stretch of text, from the place before its first character to the place after its last. -/
structure Range where
  start : Position
  stop : Position
deriving DecidableEq, Repr

namespace Range

/-- A place lies in a range when it is neither before its start nor after its stop; both ends
belong to the range. -/
instance : Membership Position Range where
  mem r p := r.start ≤ p ∧ p ≤ r.stop

instance (p : Position) (r : Range) : Decidable (p ∈ r) :=
  inferInstanceAs (Decidable (r.start ≤ p ∧ p ≤ r.stop))

theorem mem_iff {p : Position} {r : Range} : p ∈ r ↔ r.start ≤ p ∧ p ≤ r.stop := Iff.rfl

end Range

end ConceptMarkup
