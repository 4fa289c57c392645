/-
Reading the command line. A value may be written after its switch, behind an
equals sign, or right after a letter; letters without values may be drawn
together; after two dashes alone everything is an argument by position. At one
level nothing may be given twice. What a command is given after its word
outweighs what stands before it, and both outweigh the environment.

A value that has been read is settled only when the next argument asks for it,
so of two offences the one that is met first counts.
-/
import ImportResolution.CommandLine.Switches
import ImportResolution.Text.Segments

namespace ImportResolution.CommandLine

/-- Why a command line is not carried out. -/
inductive UsageFault where
  /-- Nothing at all is given. -/
  | nothingGiven
  | missingCommand
  | unknownCommand
  | missingArgument
  | unknownArgument
  /-- A switch without its value, or an empty path. -/
  | badValue
  /-- A value for a switch that takes none. -/
  | needlessValue
  /-- Something is given twice. -/
  | givenTwice
  /-- Help is asked for. -/
  | helpAsked
  /-- The version is asked for. -/
  | versionAsked
deriving DecidableEq, Repr, Inhabited

-- ============================================================== one level

/-- What has been read at a level. -/
structure Reader where
  given : List (Key × String)
  /-- What was read last and is not settled, with its value once there is one. -/
  pending : Option (Key × Option String)
  /-- How many arguments by position there were. -/
  positions : Nat
  /-- Whether two dashes were met. -/
  closed : Bool
deriving Repr, Inhabited

namespace Reader

/-- Nothing has been read. -/
def start : Reader := ⟨[], none, 0, false⟩

/-- The value of a key. -/
def value? (r : Reader) (key : Key) : Option String :=
  r.given.lookup key

/-- The reader with something given. -/
def give (r : Reader) (key : Key) (value : String) : Except UsageFault Reader :=
  if (r.value? key).isSome then .error .givenTwice
  else if key.isPath ∧ value = "" then .error .badValue
  else .ok { r with given := r.given ++ [(key, value)] }

/-- The reader with what is pending settled. -/
def settle (r : Reader) : Except UsageFault Reader :=
  match r.pending with
  | none => .ok r
  | some (_, none) => .error .badValue
  | some (key, some value) => { r with pending := none }.give key value

/-- Whether a value has to come next. -/
def awaitsValue (r : Reader) : Bool :=
  match r.pending with
  | some (_, none) => true
  | _ => false

/-- The reader with a value for what awaits one. -/
def supply (r : Reader) (value : String) : Reader :=
  { r with pending := r.pending.map fun p => (p.1, some value) }

/-- The reader after a switch without a value. -/
def takeBare (r : Reader) (key : Key) : Except UsageFault Reader := do
  let r ← r.settle
  if key = .help then throw .helpAsked
  if key = .version then throw .versionAsked
  r.give key ""

/-- The reader after a switch with a value, which may be attached to it. -/
def takeValued (r : Reader) (key : Key) (attached : Option String) :
    Except UsageFault Reader := do
  let r ← r.settle
  match attached with
  | some value => r.give key value
  | none => return { r with pending := some (key, none) }

/-- The reader after a switch by its long name. -/
def takeLong (level : Level) (r : Reader) (body : List Char) : Except UsageFault Reader :=
  let (name, attached) : List Char × Option String :=
    match Text.cutAt? '=' body with
    | some (name, value) => (name, some (String.ofList value))
    | none => (body, none)
  match level.switches.find? (·.long == String.ofList name) with
  | none => .error .unknownArgument
  | some switch =>
    if switch.takesValue then r.takeValued switch.key attached
    else if attached.isSome then .error .needlessValue
    else r.takeBare switch.key

/-- The value attached to a letter: what follows it, without a leading equals
sign. -/
def attachedTo : List Char → Option String
  | [] => none
  | '=' :: rest => some (String.ofList rest)
  | rest => some (String.ofList rest)

/-- The reader after switches by their letters. -/
def takeLetters (level : Level) (r : Reader) : List Char → Except UsageFault Reader
  | [] => .ok r
  | c :: rest =>
    match level.switches.find? (·.short == some c) with
    | none => .error .unknownArgument
    | some switch =>
      if switch.takesValue then r.takeValued switch.key (attachedTo rest)
      else
        match r.takeBare switch.key with
        | .ok r => takeLetters level r rest
        | .error fault => .error fault

/-- The fault of an argument that has no place. -/
def misplaced (level : Level) (closed : Bool) (argument : String) : UsageFault :=
  if level.commands = [] ∨ (closed ∧ argument ∈ level.commands) then .unknownArgument
  else .unknownCommand

/-- The reader after an argument by position. -/
def takePositional (level : Level) (r : Reader) (argument : String) :
    Except UsageFault Reader :=
  match level.positionals[r.positions]? with
  | none => .error (misplaced level r.closed argument)
  | some key => do
    let r ← r.settle
    return { r with pending := some (key, some argument), positions := r.positions + 1 }

/-- The reader after an argument that is no command. -/
def takeArgument (level : Level) (r : Reader) (argument : String) :
    Except UsageFault Reader :=
  if r.closed then r.takePositional level argument
  else
    match argument.toList with
    | ['-', '-'] => .ok { r with closed := true }
    | '-' :: '-' :: body => r.takeLong level body
    | '-' :: c :: letters => r.takeLetters level (c :: letters)
    | _ => if r.awaitsValue then .ok (r.supply argument) else r.takePositional level argument

/-- What is read up to a command, with the word and what follows it. -/
def readLevel (level : Level) (r : Reader) :
    List String → Except UsageFault (Reader × Option (String × List String))
  | [] => .ok (r, none)
  | argument :: rest =>
    if !r.closed && !r.awaitsValue && level.commands.contains argument then
      .ok (r, some (argument, rest))
    else
      match r.takeArgument level argument with
      | .ok r => readLevel level r rest
      | .error fault => .error fault

/-- The reader with the root that the environment names, unless one is given. -/
def withRoot (r : Reader) (root : Option String) : Except UsageFault Reader :=
  match r.value? .root, root with
  | none, some root => r.give .root root
  | _, _ => .ok r

end Reader

-- ================================================================ command

/-- What is to be done. -/
inductive Command where
  | resolve (specifier file : String) (project : Option String)
  | edges (imports : String) (stats : Bool)
  | paths (specifier : String)
  | check
deriving DecidableEq, Repr, Inhabited

/-- A command line that has been understood. -/
structure Invocation where
  /-- The root of the workspace, if one is named. -/
  root : Option String
  /-- The file of the workspace graph, seen from the root. -/
  graph : String
  /-- Settings given by switches, under their names. -/
  options : List (String × String)
  /-- Whether reports are printed as data. -/
  json : Bool
  command : Command
deriving DecidableEq, Repr, Inhabited

/-- The graph file where none is named. -/
def standardGraph : String := "locus-graph.json"

/-- The variable that names the root. -/
def rootVariable : String := "LOCUS_ROOT"

/-- What is given before and after the word for a command, with the root that
the environment names. -/
structure Given where
  before : Reader
  after : Reader
  environmentRoot : Option String

namespace Given

/-- The value of a key: the later one of two. -/
def value? (g : Given) (key : Key) : Option String :=
  (g.after.value? key).or (g.before.value? key)

/-- Whether a switch is given. -/
def has (g : Given) (key : Key) : Bool :=
  (g.value? key).isSome

/-- The settings given by switches. -/
def options (g : Given) : List (String × String) :=
  ((g.value? .installedDirectory).map fun dir => ("installed-dir", dir)).toList ++
  ((g.value? .configFiles).map fun files => ("tsconfig-files", files)).toList ++
  (if g.has .noLanguageFallback then [("language-fallback", "false")] else []) ++
  (if g.has .noRuntimeFallback then [("runtime-fallback", "false")] else [])

/-- The command of a word with what is given; what is required is there. -/
def command (g : Given) : CommandWord → Command
  | .resolve => .resolve ((g.value? .specifier).getD "") ((g.value? .importingFile).getD "")
      (g.value? .project)
  | .edges => .edges ((g.value? .imports).getD "") (g.has .stats)
  | .paths => .paths ((g.value? .specifier).getD "")
  | .check => .check

/-- The command line that is understood. -/
def invocation (g : Given) (word : CommandWord) : Invocation where
  root := (g.value? .root).or g.environmentRoot
  graph := (g.value? .graph).getD standardGraph
  options := g.options
  json := g.has .json
  command := g.command word

end Given

/-- The fault of asking for help on some words: help is given on a command, and
nothing stands below a command. -/
def helpOn : List String → UsageFault
  | [] => .helpAsked
  | [word] => if topLevel.commands.contains word then .helpAsked else .unknownCommand
  | _ => .unknownCommand

/-- Demands that a root in the environment be no empty path where it counts. -/
def checkedRoot (r : Reader) (root : Option String) : Except UsageFault Unit := do
  discard (r.withRoot root)

/-- What follows the word for a command. -/
def readCommand (word : CommandWord) (root : Option String) (arguments : List String) :
    Except UsageFault Reader := do
  let (after, _) ← Reader.start.readLevel word.level arguments
  let after ← after.settle
  checkedRoot after root
  if word.level.required.all fun key => (after.value? key).isSome then return after
  else throw .missingArgument

/-- The fault of a command line without a command. -/
def withoutCommand (r : Reader) : UsageFault :=
  if r.given = [] then .nothingGiven else .missingCommand

/-- The command line that some arguments make up, under an environment that may
name a root. -/
def readArguments (root : Option String) (arguments : List String) :
    Except UsageFault Invocation := do
  let (before, command) ← Reader.start.readLevel topLevel arguments
  match command with
  | none =>
    let before ← before.settle
    throw (withoutCommand (← before.withRoot root))
  | some (word, rest) =>
    match CommandWord.ofText? word with
    | none => throw (helpOn rest)
    | some word =>
      let after ← readCommand word root rest
      let before ← before.settle
      checkedRoot before root
      return Given.invocation ⟨before, after, root⟩ word

end ImportResolution.CommandLine
