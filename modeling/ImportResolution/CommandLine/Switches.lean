/-
What may stand on the command line: the switches, the words for commands, and
which of them each command takes.
-/

namespace ImportResolution.CommandLine

/-- Something that the command line can give. -/
inductive Key where
  | root
  | graph
  | installedDirectory
  | configFiles
  | noLanguageFallback
  | noRuntimeFallback
  | json
  | verbose
  | logJson
  | help
  | version
  | specifier
  | importingFile
  | project
  | imports
  | parallel
  | stats
deriving DecidableEq, Repr, Inhabited

namespace Key

/-- Whether a value is a path, which must not be empty. -/
def isPath : Key → Bool
  | .root | .graph | .imports => true
  | _ => false

end Key

/-- A switch by its long name after two dashes, and perhaps a letter after one. -/
structure Switch where
  key : Key
  long : String
  short : Option Char
  /-- Whether a value belongs to it. -/
  takesValue : Bool
deriving DecidableEq, Repr, Inhabited

/-- A switch with a value. -/
def Switch.valued (key : Key) (long : String) : Switch := ⟨key, long, none, true⟩

/-- A switch without a value. -/
def Switch.bare (key : Key) (long : String) : Switch := ⟨key, long, none, false⟩

/-- What is read at one level of the command line. -/
structure Level where
  switches : List Switch
  /-- The arguments by position. -/
  positionals : List Key
  /-- What has to be given. -/
  required : List Key
  /-- The words that lead to the next level. -/
  commands : List String
deriving Repr, Inhabited

/-- The switches that may stand at either level. -/
def commonSwitches : List Switch :=
  [⟨.root, "root", some 'C', true⟩, .valued .graph "graph",
    .valued .installedDirectory "installed-dir", .valued .configFiles "tsconfig",
    .bare .noLanguageFallback "no-language-fallback",
    .bare .noRuntimeFallback "no-runtime-fallback", .bare .json "json",
    ⟨.verbose, "verbose", some 'v', false⟩, .bare .logJson "log-json",
    ⟨.help, "help", some 'h', false⟩]

/-- A command of the program. -/
inductive CommandWord where
  | resolve
  | edges
  | paths
  | check
deriving DecidableEq, Repr, Inhabited

namespace CommandWord

/-- Every command. -/
def all : List CommandWord := [.resolve, .edges, .paths, .check]

/-- The word for a command. -/
def text : CommandWord → String
  | .resolve => "resolve"
  | .edges => "edges"
  | .paths => "paths"
  | .check => "check"

/-- The command of a word. -/
def ofText? (word : String) : Option CommandWord :=
  all.find? (·.text == word)

/-- What is read after the word for a command. -/
def level : CommandWord → Level
  | .resolve => ⟨commonSwitches ++ [.valued .importingFile "from", .valued .project "project"],
      [.specifier], [.specifier, .importingFile], []⟩
  | .edges => ⟨commonSwitches ++ [.bare .parallel "parallel", .bare .stats "stats"],
      [.imports], [.imports], []⟩
  | .paths => ⟨commonSwitches, [.specifier], [.specifier], []⟩
  | .check => ⟨commonSwitches, [], [], []⟩

end CommandWord

/-- The word that asks for help. -/
def helpWord : String := "help"

/-- What is read before the word for a command. -/
def topLevel : Level where
  switches := commonSwitches ++ [⟨.version, "version", some 'V', false⟩]
  positionals := []
  required := []
  commands := CommandWord.all.map CommandWord.text ++ [helpWord]

end ImportResolution.CommandLine
