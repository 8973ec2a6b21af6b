/-! Lengths of a text in UTF-8 bytes and UTF-16 units, and cuts of a text at byte offsets. A cut is
possible only at a boundary between characters: `splitBytes?` and `slice?` refuse any other, while
`fitting` moves back to the nearest boundary. -/
namespace ConceptMarkup.Text

def byteLength : List Char → Nat
  | [] => 0
  | c :: cs => c.utf8Size + byteLength cs

/-- The number of UTF-16 units of one character: two above the basic plane. -/
def units16 (c : Char) : Nat := if c.toNat < 0x10000 then 1 else 2

def unitLength : List Char → Nat
  | [] => 0
  | c :: cs => units16 c + unitLength cs

/-- The text before and after byte offset `n`, or `none` if `n` lies inside a character or past
the end. -/
def splitBytes? : Nat → List Char → Option (List Char × List Char)
  | 0, cs => some ([], cs)
  | _ + 1, [] => none
  | n + 1, c :: cs =>
    if c.utf8Size ≤ n + 1 then
      (splitBytes? (n + 1 - c.utf8Size) cs).map fun (before, after) => (c :: before, after)
    else none

/-- The text from byte offset `start` up to byte offset `stop`, or `none` if the two are out of
order or one of them is no boundary of the text. -/
def slice? (start stop : Nat) (cs : List Char) : Option (List Char) := do
  let (_, rest) ← splitBytes? start cs
  if start ≤ stop then
    let (middle, _) ← splitBytes? (stop - start) rest
    some middle
  else none

/-- The longest beginning of the text that has at most `n` bytes. -/
def fitting : Nat → List Char → List Char
  | _, [] => []
  | n, c :: cs => if c.utf8Size ≤ n then c :: fitting (n - c.utf8Size) cs else []

@[simp] theorem byteLength_nil : byteLength [] = 0 := rfl

@[simp] theorem byteLength_cons (c : Char) (cs : List Char) :
    byteLength (c :: cs) = c.utf8Size + byteLength cs := rfl

@[simp] theorem byteLength_append (as bs : List Char) :
    byteLength (as ++ bs) = byteLength as + byteLength bs := by
  induction as with
  | nil => simp
  | cons c as ih => simp [ih, Nat.add_assoc]

@[simp] theorem unitLength_nil : unitLength [] = 0 := rfl

@[simp] theorem unitLength_cons (c : Char) (cs : List Char) :
    unitLength (c :: cs) = units16 c + unitLength cs := rfl

@[simp] theorem unitLength_append (as bs : List Char) :
    unitLength (as ++ bs) = unitLength as + unitLength bs := by
  induction as with
  | nil => simp
  | cons c as ih => simp [ih, Nat.add_assoc]

@[simp] theorem splitBytes?_byteLength (as bs : List Char) :
    splitBytes? (byteLength as) (as ++ bs) = some (as, bs) := by
  induction as with
  | nil => cases bs <;> simp [splitBytes?]
  | cons c as ih =>
    have hc := c.utf8Size_pos
    obtain ⟨n, hn⟩ : ∃ n, c.utf8Size + byteLength as = n + 1 :=
      ⟨c.utf8Size + byteLength as - 1, by omega⟩
    simp only [byteLength_cons, hn, List.cons_append, splitBytes?]
    rw [if_pos (by omega), show n + 1 - c.utf8Size = byteLength as by omega, ih]
    rfl

theorem slice?_append (as bs cs : List Char) :
    slice? (byteLength as) (byteLength as + byteLength bs) (as ++ (bs ++ cs)) = some bs := by
  simp [slice?]

end ConceptMarkup.Text
