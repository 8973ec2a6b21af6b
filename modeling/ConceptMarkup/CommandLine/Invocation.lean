import ConceptMarkup.CommandLine.Reading

/-! What a command line asks for. A first operand that is no command is the file of a check. -/
namespace ConceptMarkup.CommandLine

structure CheckRequest where
  file : String
  ast : Bool := false
  listConcepts : Bool := false
  json : Bool := false
  quiet : Bool := false
deriving DecidableEq, Repr

structure TestRequest where
  path : String
  categories : List String := []
  listCategories : Bool := false
deriving DecidableEq, Repr

inductive Request where
  | check (request : CheckRequest)
  | test (request : TestRequest)
deriving DecidableEq, Repr

structure Invocation where
  color : Bool
  config : Option String
  verbosity : Nat
  request : Request
deriving DecidableEq, Repr

def isOption (arg : String) : Bool := arg.toList.head? = some '-'

/-- Inserts the word for a check before the first operand, unless that is a command word. The value
of the option for the configuration is no operand. -/
def insertCheck : List String → List String
  | [] => []
  | [arg] =>
    if isOption arg || isCommandWord arg then [arg] else [Command.check.word, arg]
  | arg :: value :: args =>
    if arg = "--config" then arg :: value :: insertCheck args
    else if isOption arg then arg :: insertCheck (value :: args)
    else if isCommandWord arg then arg :: value :: args
    else Command.check.word :: arg :: value :: args

/-- A command line, whose first word is the name of the program, with its command named. -/
def injectDefaultCommand : List String → List String
  | [] => []
  | program :: args => program :: insertCheck args

def Reading.request (r : Reading) (command : Command) : Except UsageError Request :=
  if r.has .json && Flag.excludedByJson.any r.has then .error .argumentConflict
  else
    match r.operand with
    | none => .error .missingOperand
    | some path =>
      match command with
      | .check => .ok <| .check
        { file := path
          ast := r.has .ast
          listConcepts := r.has .listConcepts
          json := r.has .json
          quiet := r.has .quiet }
      | .test => .ok <| .test
        { path := path
          categories := r.values .category
          listCategories := r.has .listCategories }

/-- What stands after the word for help: at most one command word. -/
def readHelp : List String → UsageError
  | [] => .helpRequested
  | [arg] => if isCommandWord arg then .helpRequested else .unknownCommand
  | _ => .unknownCommand

def readCommand (command : Command) (args : List String) :
    Except UsageError (Reading × Request) := do
  let (r, _) ← Reading.upToCommand {} (some command) args
  let r ← r.settle
  return (r, ← r.request command)

/-- The job of arguments that name their command. What is given after the command wins over what is
given before it. -/
def readArguments (args : List String) : Except UsageError Invocation := do
  let (before, found) ← Reading.upToCommand {} none args
  match found with
  | none =>
    let before ← before.settle
    throw (if before.given.isEmpty then .nothingGiven else .missingCommand)
  | some (word, rest) =>
    let command ←
      if word = Command.check.word then pure Command.check
      else if word = Command.test.word then pure Command.test
      else throw (readHelp rest)
    let (after, request) ← readCommand command rest
    let before ← before.settle
    let verbosity (r : Reading) : Nat := r.given.countP (·.1 = .verbose)
    return {
      color := !(before.has .noColor || after.has .noColor)
      config := (after.values .config).head? <|> (before.values .config).head?
      verbosity := if after.has .verbose then verbosity after else verbosity before
      request := request }

def Invocation.ofArguments (args : List String) : Except UsageError Invocation :=
  readArguments (insertCheck args)

def logDirective (verbosity : Nat) : String :=
  match verbosity with
  | 0 => "nlm=warn"
  | 1 => "nlm=debug"
  | _ => "nlm=trace"

end ConceptMarkup.CommandLine
