/-
Overrides of settings from the environment and from the command line. They are
applied one after another, the environment first; the outcome is checked as a
whole at the end. An override of something that is no setting changes nothing.
-/
import ImportResolution.Settings.Basic
import ImportResolution.Table

namespace ImportResolution.Settings

-- ============================================================== decoding

/-- The items of a list with commas between them; blank items do not count. -/
def listOf (value : String) : List String :=
  ((Text.pieces ',' value).map Text.trim).filter (· != "")

/-- A truth value in one of its spellings, blanks around it and capitals aside. -/
def flag? (word : String) : Option Bool :=
  if ["1", "true", "yes", "on"].contains word then some true
  else if ["0", "false", "no", "off"].contains word then some false
  else none

/-- A truth value; `origin` is the key that its giver used. -/
def flagOf (origin value : String) : Except Fault Bool :=
  let word := Text.lowerBasic (Text.trim value)
  match flag? word with
  | some b => .ok b
  | none => .error (.invalidField origin ("Expected a boolean, got '" ++ word ++ "'"))

-- ============================================================== applying

/-- The settings with one of them overridden. -/
def override (s : Settings) (origin setting value : String) : Except Fault Settings :=
  if setting = "installed-dir" then .ok { s with installedDirectory := value }
  else if setting = "tsconfig" ∨ setting = "tsconfig-files" then
    .ok { s with configFiles := listOf value }
  else if setting = "extra-builtins" then .ok { s with extraBuiltins := listOf value }
  else if setting = "language-fallback" then do
    return { s with languageFallback := ← flagOf origin value }
  else if setting = "runtime-fallback" then do
    return { s with runtimeFallback := ← flagOf origin value }
  else .ok s

/-- What the names of environment variables for settings begin with. -/
def variableStart : String := "LOCUS_"

/-- A character of a variable name as the setting's name has it: small, and a
dash for an underscore. The Kelvin sign is a capital of the letter k. -/
def settingChar (c : Char) : Char :=
  if c = '_' then '-' else if c = '\u212A' then 'k' else c.toLower

/-- The setting that a variable names, if it names one. -/
def settingOfVariable? (name : String) : Option String :=
  (Text.dropStart? name variableStart).map fun rest =>
    String.ofList (rest.toList.map settingChar)

/-- The settings with the variables of an environment applied in order. -/
def applyVariables (s : Settings) (environment : List (String × String)) : Except Fault Settings :=
  environment.foldlM (fun s v =>
    match settingOfVariable? v.1 with
    | some setting => s.override v.1 setting v.2
    | none => .ok s) s

/-- The settings with the options of a command line applied in order. -/
def applyOptions (s : Settings) (options : List (String × String)) : Except Fault Settings :=
  options.foldlM (fun s o => s.override o.1 o.1 o.2) s

/-- The settings under an environment and a command line, checked. -/
def layered (s : Settings) (environment options : List (String × String)) :
    Except Fault Settings := do
  let s ← s.applyVariables environment
  let s ← s.applyOptions options
  s.validate

/-- The variables for settings among those of an environment, by name; of one
name the last stays. -/
def variablesFor (environment : List (String × String)) : List (String × String) :=
  Table.sorted (environment.filter fun v => Text.startsWith v.1 variableStart)

end ImportResolution.Settings
