import ConceptMarkup.Proofs.Shift
import ConceptMarkup.Proofs.TokenScan

/-! The tokens of two texts with a line feed between them. From one line to the next the pass takes
along nothing but its place, and of that it looks at the column only: what comes after a line feed
is read as a text of its own, further down. -/
namespace ConceptMarkup
open Text

namespace Token

def shift (lines bytes : Nat) (t : Token) : Token :=
  { t with range := t.range.shift lines bytes }

def Walk.shift (lines bytes : Nat) (w : Walk) : Walk :=
  { w with place := w.place.shift lines bytes }

section

variable (lines bytes : Nat)

private theorem walk_shift {go : Position → List Char → Bool}
    (hgo : ∀ p cs, go (p.shift lines bytes) cs = go p cs) (p : Position) (cs : List Char) :
    walk go (p.shift lines bytes) cs = (walk go p cs).shift lines bytes := by
  induction cs generalizing p with
  | nil => rfl
  | cons c cs ih =>
    rw [walk, walk, hgo, Position.shift_advance, ih]
    split
    · rfl
    · rfl

private theorem walkIndent_shift (p : Position) (cs : List Char) :
    walkIndent (p.shift lines bytes) cs = (walkIndent p cs).shift lines bytes := by
  have hc : (p.shift lines bytes).column = p.column := rfl
  rw [walkIndent, walkIndent, hc, walk_shift lines bytes fun _ _ => rfl]
  split
  · rfl
  · rfl

private theorem walkName_shift (p : Position) (cs : List Char) :
    walkName (p.shift lines bytes) cs = (walkName p cs).shift lines bytes :=
  walk_shift lines bytes (fun _ _ => rfl) p cs

private theorem walkText_shift (p : Position) (cs : List Char) :
    walkText (p.shift lines bytes) cs = (walkText p cs).shift lines bytes :=
  walk_shift lines bytes (fun _ _ => rfl) p cs

private theorem next?_shift (p : Position) (cs : List Char) : next? (p.shift lines bytes) cs =
    (next? p cs).map fun (t, rest) => (t.shift lines bytes, rest) := by
  cases cs with
  | nil => rfl
  | cons c cs =>
    have hm : atMarker (p.shift lines bytes) (c :: cs) = atMarker p (c :: cs) := rfl
    simp only [next?, hm, Position.shift_advance, walkName_shift, walkText_shift]
    split
    · rw [lineFeed, Position.shift_advance]
      rfl
    · split
      · rfl
      · rfl

private theorem scan_shift (p : Position) (cs : List Char) :
    scan (p.shift lines bytes) cs = (scan p cs).map (.shift lines bytes) := by
  fun_induction scan p cs with
  | case1 p cs w hn =>
    have hw := walkIndent_shift lines bytes p cs
    have hn' : next? (w.place.shift lines bytes) w.rest = none := by rw [next?_shift, hn]; rfl
    rw [scan_of_none hw hn']
    rfl
  | case2 p cs w t rest hn ih =>
    have hw := walkIndent_shift lines bytes p cs
    have hn' : next? (w.place.shift lines bytes) w.rest = some (t.shift lines bytes, rest) := by
      rw [next?_shift, hn]
      rfl
    rw [scan_of_some hw hn', List.map_cons, ← ih]
    rfl

end

private theorem scan_append_lineFeed {p : Position} (hp : p.column = 1) (as bs : List Char) :
    scan p (as ++ '\n' :: bs) =
      content p as ++ lineFeed (p.after as) :: scan ((p.after as).advance '\n') bs := by
  induction as using line_induction generalizing p with
  | last line hn => rw [scan_line hp hn (by simp), scan_lineFeed, content_line p hn]
  | cons line rest hn ih =>
    rw [List.append_assoc, List.cons_append, scan_line hp hn (by simp), scan_lineFeed, ih rfl,
      content_cons p rest hn, Position.after_append, Position.after_cons, List.append_assoc,
      List.cons_append]

theorem tokenize_eq_scan (source : String) : tokenize source = scan .start source.toList :=
  (scan_eq rfl source.toList).symm

/-- The tokens of two texts with a line feed between them are those of the first without its end of
input, a newline at that place, and those of the second, moved down by the lines and bytes before
them. -/
theorem tokenize_append_lineFeed (a b : String) :
    ∃ init p, tokenize a = init ++ [⟨.endOfInput, p, p⟩] ∧ (∀ t ∈ init, t.isEndOfInput = false) ∧
      tokenize (a ++ "\n" ++ b) = init ++ ⟨.newline, p, ⟨p.line + 1, 1, p.offset + 1⟩⟩ ::
        (tokenize b).map (.shift (a.toList.count '\n' + 1) (byteLength a.toList + 1)) := by
  refine ⟨content .start a.toList, Position.start.after a.toList, tokenize_eq a, ?_, ?_⟩
  · intro t ht
    simpa using List.mem_takeWhile_imp ht
  · have hl : (a ++ "\n" ++ b).toList = a.toList ++ '\n' :: b.toList := by simp
    have hp : (Position.start.after a.toList).advance '\n' =
        Position.start.shift (a.toList.count '\n' + 1) (byteLength a.toList + 1) := by
      rw [← Position.start_after_lineFeed, Position.after_append]
      rfl
    rw [tokenize_eq_scan, hl, scan_append_lineFeed rfl, tokenize_eq_scan, ← scan_shift, ← hp]
    rfl

/-- Blanks that the first text ends with are in no token, and what follows them is on a line of its
own. -/
example : tokenize ("@A\n " ++ "\n" ++ "@B") =
    [⟨.marker "A", ⟨1, 1, 0⟩, ⟨1, 3, 2⟩⟩, lineFeed ⟨1, 3, 2⟩, lineFeed ⟨2, 2, 4⟩,
      ⟨.marker "B", ⟨3, 1, 5⟩, ⟨3, 3, 7⟩⟩, finish ⟨3, 3, 7⟩] := by
  decide

end Token

end ConceptMarkup
