import ConceptMarkup.CommandLine.Run

/-! The command line program. It reads from the disk what an invocation needs, runs the invocation
on that, and prints the outcome. -/
namespace ConceptMarkup

def Outcome.print : Outcome → IO UInt32
  | .checked o => do
    IO.print o.output
    for d in o.findings do
      IO.eprintln d.display
      for note in d.notes do IO.eprintln ("  = " ++ note)
    if let some line := o.closing then IO.eprintln line
    return o.exitCode.toUInt32
  | .tested o => do
    IO.eprint o.transcript
    return o.exitCode.toUInt32

namespace CommandLine

def helpText : String :=
  "Natural-language markup checker\n\n" ++
  "Usage: nlm [OPTIONS] <COMMAND>\n\n" ++
  "Commands:\n" ++
  "  check  Check a source file and report diagnostics\n" ++
  "  test   Run .test.nlm expectation files\n" ++
  "  help   Print this message\n\n" ++
  "Options:\n" ++
  "      --no-color       Disable colored output\n" ++
  "      --config <PATH>  Config file (defaults to ./nlm.toml when present)\n" ++
  "  -v, --verbose...     More log output (-v debug, -vv trace)\n" ++
  "  -h, --help           Print help\n" ++
  "  -V, --version        Print version\n"

def UsageError.message : UsageError → String
  | unknownArgument => "unexpected argument found"
  | argumentConflict => "an argument cannot be used with another, or more than once"
  | missingOperand => "a required argument was not provided"
  | invalidValue => "a value is required"
  | unexpectedValue => "unexpected value for an option that takes none"
  | unknownCommand => "unrecognized subcommand"
  | missingCommand => "a subcommand is required but none was provided"
  | nothingGiven => helpText
  | helpRequested => helpText
  | versionRequested => "nlm 0.1.0"

/-- Why an operation of the operating system failed. Some operations give the code of an error with
its sign changed. -/
def failureOf : IO.Error → Disk.Failure
  | .noFileOrDirectory .. => .notFound
  | .inappropriateType .. => .notDirectory
  | e@(.invalidArgument _ code _) =>
    if code = 36 ∨ code = -36 then .nameTooLong else .other (toString e)
  | e => .other (toString e)

def readFile (path : String) : IO (Except Disk.Failure String) := do
  try return Disk.textOfBytes (← IO.FS.readBinFile path)
  catch e => return .error (failureOf e)

/-- The entries of a directory with all below it. Only test files are read. -/
partial def readEntries (directory : String) : IO Disk.Entries := do
  let entries ← try (System.mkFilePath [directory]).readDir catch _ => pure #[]
  entries.toList.mapM fun entry => do
    let path := Path.join directory entry.fileName
    if ← (System.mkFilePath [path]).isDir then
      return (entry.fileName, .directory (← readEntries path))
    else if FoundTest.isTestName entry.fileName then
      return (entry.fileName, .file (← readFile path))
    else return (entry.fileName, .file (.ok ""))

def readNode (path : String) : IO (Except Disk.Failure Disk.Node) := do
  if ← (System.mkFilePath [path]).isDir then return .ok (.directory (← readEntries path))
  match ← readFile path with
  | .error .invalidText => return .ok (.file (.error .invalidText))
  | .error failure => return .error failure
  | .ok text => return .ok (.file (.ok text))

def Invocation.paths (i : Invocation) : List String :=
  let target := match i.request with
    | .check request => request.file
    | .test request => request.path
  [i.config.getD defaultConfig, target]

def isLogged (verbosity : Nat) (e : Event) : Bool :=
  match e.level with
  | .trace => 2 ≤ verbosity
  | _ => 1 ≤ verbosity

def logLine (e : Event) : String :=
  " ".intercalate (e.message :: e.fields.map fun (name, value) => name ++ "=" ++ value)

def Invocation.perform (i : Invocation) : IO UInt32 := do
  let nodes ← i.paths.mapM fun path => return (path, ← readNode path)
  let disk : Disk := fun path => (nodes.lookup path).getD (.error .notFound)
  for e in i.events disk do
    if isLogged i.verbosity e then IO.eprintln (logLine e)
  match i.run disk with
  | .ok outcome => outcome.print
  | .error e =>
    IO.eprintln ("error: " ++ e.message)
    return 1

def UsageError.report (e : UsageError) : IO UInt32 := do
  match e with
  | .helpRequested | .versionRequested => IO.println e.message
  | .nothingGiven => IO.eprintln e.message
  | _ => IO.eprintln ("error: " ++ e.message)
  return e.exitCode.toUInt32

end CommandLine

end ConceptMarkup

open ConceptMarkup.CommandLine in
def main (args : List String) : IO UInt32 := do
  match Invocation.ofArguments args with
  | .ok invocation => invocation.perform
  | .error e => e.report
