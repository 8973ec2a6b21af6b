import ConceptMarkup.Text.Unprintable

/-! Texts in double quotes, with an escape for each character that does not show. -/
namespace ConceptMarkup.Text

def hex (n : Nat) : List Char := Nat.toDigits 16 n

def codeEscape (c : Char) : List Char := ['\\', 'u', '\x7b'] ++ hex c.toNat ++ ['\x7d']

/-- The written form of a character in a quoted text: a short escape if it has one, its code point
if it does not show or combines with the character before it, and otherwise the character itself. -/
def quotedChar (c : Char) : List Char :=
  if c = '\x00' then ['\\', '0']
  else if c = '\t' then ['\\', 't']
  else if c = '\n' then ['\\', 'n']
  else if c = '\r' then ['\\', 'r']
  else if c = '"' then ['\\', '"']
  else if c = '\\' then ['\\', '\\']
  else if 0x20 ≤ c.toNat && c.toNat < 0x7F then [c]
  else if extending.contains c || unprintable.contains c then codeEscape c
  else [c]

def quoted (s : String) : String := String.ofList ('"' :: s.toList.flatMap quotedChar ++ ['"'])

end ConceptMarkup.Text
