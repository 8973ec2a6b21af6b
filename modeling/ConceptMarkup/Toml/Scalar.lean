import ConceptMarkup.Toml.Reader
import ConceptMarkup.Toml.Value

/-! The written forms of keys, strings, numbers and dates in TOML. -/
namespace ConceptMarkup.Toml

open Reader

def isSpace (c : Char) : Bool := c = ' ' || c = '\t'

/-- Whether a character may stand in a comment or a string: any but the controls, of which only the
tab may. -/
def isPlain (c : Char) : Bool := c = '\t' || (0x20 ≤ c.toNat && c ≠ '\x7f')

def spaces : Reader Unit := do
  let _ ← run isSpace

def newline : Reader Unit := char '\n' <|> word "\r\n"

def comment : Reader Unit := do
  char '#'
  let _ ← run isPlain

def lineEnd : Reader Unit := do
  spaces
  let _ ← maybe comment
  newline <|> atEnd

/-! ### Strings -/

def hexValue (c : Char) : Nat :=
  if c.isDigit then c.toNat - 0x30 else if c.isUpper then c.toNat - 0x37 else c.toNat - 0x57

def isHexDigit (c : Char) : Bool :=
  c.isDigit || ('A' ≤ c && c ≤ 'F') || ('a' ≤ c && c ≤ 'f')

def numeral (base : Nat) (digits : List Char) : Nat :=
  digits.foldl (fun n c => n * base + hexValue c) 0

def codePoint (n : Nat) : Reader Char := do
  let code := numeral 16 (← exactly n isHexDigit)
  if code.isValidChar then return .ofNat code else failure

def escape : Reader Char := do
  char '\\'
  match ← satisfy fun _ => true with
  | 'b' => return '\x08'
  | 't' => return '\t'
  | 'n' => return '\n'
  | 'f' => return '\x0c'
  | 'r' => return '\r'
  | '"' => return '"'
  | '\\' => return '\\'
  | 'u' => codePoint 4
  | 'U' => codePoint 8
  | _ => failure

def basicChar : Reader Char := satisfy fun c => isPlain c && c ≠ '"' && c ≠ '\\'

def literalChar : Reader Char := satisfy fun c => isPlain c && c ≠ '\x27'

def basicString : Reader String := do
  char '"'
  let cs ← many (basicChar <|> escape)
  char '"'
  return .ofList cs

def literalString : Reader String := do
  char '\x27'
  let cs ← many literalChar
  char '\x27'
  return .ofList cs

/-- One or two quotes inside a string that three quotes close. -/
def innerQuotes (quote : Char) : Reader (List Char) := do
  char quote
  let second ← maybe (char quote)
  notNext (· = quote)
  return if second.isSome then [quote, quote] else [quote]

/-- The three quotes that close a string, and up to two quotes before them that belong to it. -/
def closingQuotes (quote : Char) : Reader (List Char) := fun cs =>
  let n := (cs.takeWhile (· = quote)).length
  if n < 3 then none
  else
    let inner := min (n - 3) 2
    some (List.replicate inner quote, cs.drop (inner + 3))

def lineJoin : Reader Unit := do
  char '\\'
  spaces
  newline
  let _ ← many (newline <|> do let _ ← run1 isSpace)

/-- A string in three quotes. A newline directly after the opening quotes does not count, and every
other newline is a line feed. -/
def multilineString (quote : Char) (piece : Reader (List Char)) : Reader String := do
  word (.ofList [quote, quote, quote])
  let _ ← maybe newline
  let pieces ← many (piece <|> newline *> pure ['\n'] <|> innerQuotes quote)
  let inner ← closingQuotes quote
  return .ofList (pieces.flatten ++ inner)

def string : Reader String :=
  multilineString '"' ((fun c => [c]) <$> basicChar <|> lineJoin *> pure [] <|>
    (fun c => [c]) <$> escape) <|>
  multilineString '\x27' ((fun c => [c]) <$> literalChar) <|>
  basicString <|> literalString

/-! ### Keys -/

def keyPart : Reader String :=
  basicString <|> literalString <|>
  String.ofList <$> run1 fun c => c.isAlphanum || c = '-' || c = '_'

/-- The number of levels at which keys and values are refused. -/
def depthLimit : Nat := 80

def key : Reader (List String) := do
  let parts ← sepBy1 (spaces *> keyPart <* spaces) (char '.')
  if parts.length < depthLimit then return parts else failure

/-! ### Numbers -/

def digits (isDigit : Char → Bool) : Reader (List Char) := do
  let first ← satisfy isDigit
  let rest ← many (satisfy isDigit <|> char '_' *> satisfy isDigit)
  return first :: rest

def sign : Reader Bool :=
  char '-' *> pure true <|> char '+' *> pure false <|> pure false

/-- The digits of a decimal integer, which starts with 0 only if it is 0. -/
def decimalDigits : Reader (List Char) :=
  char '0' *> pure ['0'] <|> digits Char.isDigit

def inRange (n : Int) : Reader Value :=
  if Int64.minValue.toInt ≤ n ∧ n ≤ Int64.maxValue.toInt then return .integer n else failure

def integerWithBase (mark : String) (base : Nat) (isDigit : Char → Bool) : Reader Value := do
  word mark
  inRange (numeral base (← digits isDigit))

def integer : Reader Value :=
  integerWithBase "0x" 16 isHexDigit <|>
  integerWithBase "0o" 8 (fun c => '0' ≤ c && c ≤ '7') <|>
  integerWithBase "0b" 2 (fun c => c = '0' || c = '1') <|> do
    let negative ← sign
    let n : Int := numeral 10 (← decimalDigits)
    inRange (if negative then -n else n)

/-- Whether `m * 10 ^ e` rounds to a number beyond the greatest double. -/
def overflows (m : Nat) (e : Int) : Bool :=
  let bound := (Nat.pow 2 54 - 1) * Nat.pow 2 970
  if m = 0 then false
  else if 0 ≤ e then 310 ≤ e || bound ≤ m * Nat.pow 10 e.toNat
  else (-e).toNat ≤ (toString m).length && bound * Nat.pow 10 (-e).toNat ≤ m

def exponent : Reader Int := do
  let _ ← satisfy fun c => c = 'e' || c = 'E'
  let negative ← sign
  let n : Int := numeral 10 (← digits Char.isDigit)
  return if negative then -n else n

/-- A float with a fraction or an exponent. One that rounds to positive infinity is refused. -/
def finiteFloat : Reader Unit := do
  let negative ← sign
  let whole ← decimalDigits
  let (fraction, e) ←
    (do let e ← exponent; return ([], e)) <|> do
      char '.'
      let fraction ← digits Char.isDigit
      return (fraction, (← maybe exponent).getD 0)
  if !negative && overflows (numeral 10 (whole ++ fraction)) (e - fraction.length) then failure

def float : Reader Value := do
  let cs ← written (finiteFloat <|> sign *> (word "inf" <|> word "nan"))
  return .float (.ofList cs)

/-! ### Dates -/

def bounded (n low high : Nat) : Reader Nat := do
  let value := numeral 10 (← exactly n Char.isDigit)
  if low ≤ value ∧ value ≤ high then return value else failure

def daysInMonth (year month : Nat) : Nat :=
  let leap := year % 4 = 0 ∧ (year % 100 ≠ 0 ∨ year % 400 = 0)
  if month = 2 then (if leap then 29 else 28)
  else if month = 4 ∨ month = 6 ∨ month = 9 ∨ month = 11 then 30
  else 31

def fullDate : Reader Unit := do
  let year ← bounded 4 0 9999
  char '-'
  let month ← bounded 2 1 12
  char '-'
  let _ ← bounded 2 1 (daysInMonth year month)

def timeOfDay : Reader Unit := do
  let _ ← bounded 2 0 23
  char ':'
  let _ ← bounded 2 0 59
  char ':'
  let _ ← bounded 2 0 60
  let _ ← maybe (char '.' *> run1 Char.isDigit)

def timeOffset : Reader Unit := do
  let c ← satisfy fun c => c = 'Z' || c = 'z' || c = '+' || c = '-'
  if c = '+' || c = '-' then
    let _ ← bounded 2 0 23
    char ':'
    let _ ← bounded 2 0 59

def date : Reader Value := do
  let time : Reader Unit := do
    let _ ← satisfy fun c => c = 'T' || c = 't' || c = ' '
    timeOfDay
    let _ ← maybe timeOffset
  let full : Reader Unit := do
    fullDate
    let _ ← maybe time
  let cs ← written (full <|> timeOfDay)
  return .date (.ofList cs)

def scalar : Reader Value :=
  .text <$> string <|>
  word "true" *> pure (.boolean true) <|>
  word "false" *> pure (.boolean false) <|>
  date <|> float <|> integer

end ConceptMarkup.Toml
