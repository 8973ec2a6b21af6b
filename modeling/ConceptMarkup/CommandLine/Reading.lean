import ConceptMarkup.CommandLine.Option

/-! Reading arguments one after another, before a command and after it. An option or operand that
was read is settled when the next one comes, or at the end: only then is it known whether the option
has its value. -/
namespace ConceptMarkup.CommandLine

inductive UsageError where
  | unknownArgument
  /-- Options that exclude each other, or an option given twice. -/
  | argumentConflict
  | missingOperand
  /-- An option without its value, or an empty path. -/
  | invalidValue
  | unexpectedValue
  | unknownCommand
  | missingCommand
  | nothingGiven
  | helpRequested
  | versionRequested
deriving DecidableEq, Repr

/-- The exit code: asking for help or for the version is no failure. -/
def UsageError.exitCode : UsageError → Nat
  | helpRequested => 0
  | versionRequested => 0
  | _ => 2

/-- What was read last and is not settled. -/
inductive Pending where
  | nothing
  /-- An option that takes a value, with the value if it has come. -/
  | option (flag : Flag) (value : Option String)
  | operand (value : String)
deriving DecidableEq, Repr

structure Reading where
  given : List (Flag × String) := []
  operand : Option String := none
  pending : Pending := .nothing
  /-- Whether two dashes have ended the options. -/
  ended : Bool := false
deriving DecidableEq, Repr

namespace Reading

def awaiting (r : Reading) : Bool := r.pending matches .option _ none

def hasOperand (r : Reading) : Bool := r.operand.isSome || r.pending matches .operand _

def give (r : Reading) (flag : Flag) (value : String) : Except UsageError Reading :=
  if !flag.repeatable && r.given.any (·.1 = flag) then .error .argumentConflict
  else if flag.needsText && value.isEmpty then .error .invalidValue
  else .ok { r with given := r.given ++ [(flag, value)] }

def settle (r : Reading) : Except UsageError Reading :=
  let settled := { r with pending := .nothing }
  match r.pending with
  | .nothing => .ok r
  | .option _ none => .error .invalidValue
  | .option flag (some value) => settled.give flag value
  | .operand value =>
    if value.isEmpty then .error .invalidValue else .ok { settled with operand := some value }

def useFlag (r : Reading) (flag : Flag) : Except UsageError Reading := do
  let r ← r.settle
  match flag with
  | .help => throw .helpRequested
  | .version => throw .versionRequested
  | _ => r.give flag ""

def useValue (r : Reading) (flag : Flag) (attached : Option String) :
    Except UsageError Reading := do
  let r ← r.settle
  match attached with
  | some value => r.give flag value
  | none => return { r with pending := .option flag none }

def long (r : Reading) (flags : List Flag) (spelling : List Char) : Except UsageError Reading :=
  let name := spelling.takeWhile (· ≠ '=')
  let attached := (spelling.dropWhile (· ≠ '=')).tail?.map String.ofList
  match flags.find? (·.long.toList = name) with
  | none => .error .unknownArgument
  | some flag =>
    if flag.takesValue then r.useValue flag attached
    else if attached.isSome then .error .unexpectedValue
    else r.useFlag flag

/-- Reads letters after one dash. What follows an option that takes a value is its value, an equals
sign between them aside. -/
def letters (r : Reading) (flags : List Flag) : List Char → Except UsageError Reading
  | [] => .ok r
  | c :: cs =>
    match flags.find? (·.short? = some c) with
    | none => .error .unknownArgument
    | some flag =>
      if flag.takesValue then
        match cs with
        | [] => r.useValue flag none
        | '=' :: value => r.useValue flag (some (.ofList value))
        | value => r.useValue flag (some (.ofList value))
      else do
        let r ← r.useFlag flag
        r.letters flags cs

/-- Reads an operand. A command takes one; without a command there is none. -/
def useOperand (r : Reading) (command : Option Command) (arg : String) :
    Except UsageError Reading :=
  match command with
  | none =>
    .error (if r.ended && isCommandWord arg then .unknownArgument else .unknownCommand)
  | some _ =>
    if r.hasOperand then .error .unknownArgument
    else do
      let r ← r.settle
      return { r with pending := .operand arg }

def next (r : Reading) (command : Option Command) (arg : String) : Except UsageError Reading :=
  if r.ended then r.useOperand command arg
  else
    match arg.toList with
    | ['-', '-'] => .ok { r with ended := true }
    | '-' :: '-' :: spelling => r.long (Flag.allowed command) spelling
    | '-' :: c :: cs => r.letters (Flag.allowed command) (c :: cs)
    | _ =>
      match r.pending with
      | .option flag none => .ok { r with pending := .option flag (some arg) }
      | _ => r.useOperand command arg

/-- Reads arguments up to a command word, of which the rest is left, or to the end. Behind a command
there is no further one. -/
def upToCommand (r : Reading) (command : Option Command) :
    List String → Except UsageError (Reading × Option (String × List String))
  | [] => .ok (r, none)
  | arg :: args =>
    if command.isNone && !r.ended && !r.awaiting && isCommandWord arg then
      .ok (r, some (arg, args))
    else do
      let r ← r.next command arg
      r.upToCommand command args

def has (r : Reading) (flag : Flag) : Bool := r.given.any (·.1 = flag)

def values (r : Reading) (flag : Flag) : List String :=
  (r.given.filter (·.1 = flag)).map (·.2)

end Reading

end ConceptMarkup.CommandLine
