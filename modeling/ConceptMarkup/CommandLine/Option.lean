/-! The options of the command line: their spellings, what they take, and where they may stand. -/
namespace ConceptMarkup.CommandLine

inductive Command where
  | check
  | test
deriving DecidableEq, Repr

def Command.word : Command → String
  | check => "check"
  | test => "test"

def helpWord : String := "help"

def isCommandWord (arg : String) : Bool :=
  arg = Command.check.word || arg = Command.test.word || arg = helpWord

inductive Flag where
  | noColor
  | config
  | verbose
  | help
  | version
  | ast
  | listConcepts
  | json
  | quiet
  | category
  | listCategories
deriving DecidableEq, Repr

namespace Flag

def long : Flag → String
  | noColor => "no-color"
  | config => "config"
  | verbose => "verbose"
  | help => "help"
  | version => "version"
  | ast => "ast"
  | listConcepts => "list-concepts"
  | json => "json"
  | quiet => "quiet"
  | category => "category"
  | listCategories => "list-categories"

def short? : Flag → Option Char
  | verbose => some 'v'
  | help => some 'h'
  | version => some 'V'
  | quiet => some 'q'
  | category => some 'c'
  | _ => none

def takesValue : Flag → Bool
  | config => true
  | category => true
  | _ => false

def repeatable : Flag → Bool
  | verbose => true
  | category => true
  | _ => false

def needsText : Flag → Bool
  | config => true
  | _ => false

/-- The options that may stand before a command (`none`) or after it. -/
def allowed : Option Command → List Flag
  | none => [noColor, config, verbose, help, version]
  | some .check => [ast, listConcepts, json, quiet, noColor, config, verbose, help]
  | some .test => [category, listCategories, noColor, config, verbose, help]

def excludedByJson : List Flag := [ast, listConcepts]

end Flag

end ConceptMarkup.CommandLine
