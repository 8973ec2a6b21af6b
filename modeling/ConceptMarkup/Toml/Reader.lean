/-! Readers: functions that read a value from the start of a text and leave the rest, or refuse the
text. Repetition is total, since it ends where a reader consumes nothing. -/
namespace ConceptMarkup.Toml

abbrev Reader := StateT (List Char) Option

namespace Reader

variable {α β : Type}

def satisfy (p : Char → Bool) : Reader Char
  | c :: cs => if p c then some (c, cs) else none
  | [] => none

def char (c : Char) : Reader Unit := do
  let _ ← satisfy (· = c)

def word (s : String) : Reader Unit := s.toList.forM char

def run (p : Char → Bool) : Reader (List Char) :=
  fun cs => some (cs.takeWhile p, cs.dropWhile p)

def run1 (p : Char → Bool) : Reader (List Char) := do
  let c ← satisfy p
  let cs ← run p
  return c :: cs

def exactly (n : Nat) (p : Char → Bool) : Reader (List Char) :=
  (List.replicate n (satisfy p)).mapM id

def maybe (p : Reader α) : Reader (Option α) := some <$> p <|> pure none

/-- As many values as `p` reads one after another, so long as it consumes something. -/
def many (p : Reader α) : Reader (List α) := fun cs => some (go cs)
where
  go (cs : List Char) : List α × List Char :=
    match p cs with
    | some (a, rest) =>
      if rest.length < cs.length then
        let (as, rest) := go rest
        (a :: as, rest)
      else ([], cs)
    | none => ([], cs)
  termination_by cs.length

def sepBy1 (p : Reader α) (separator : Reader β) : Reader (List α) := do
  let a ← p
  let as ← many (separator *> p)
  return a :: as

def atEnd : Reader Unit := fun cs => if cs.isEmpty then some ((), []) else none

/-- Passes if the next character does not satisfy `p`. Consumes nothing. -/
def notNext (p : Char → Bool) : Reader Unit := fun cs =>
  if cs.head?.any p then none else some ((), cs)

def written (p : Reader α) : Reader (List Char) := fun cs => do
  let (_, rest) ← p cs
  some (cs.take (cs.length - rest.length), rest)

end Reader

end ConceptMarkup.Toml
