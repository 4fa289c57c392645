/-
What can go wrong, by cause, and how each cause is told: a message, a piece of
advice where there is one, and whether the cause is that something was not
there.
-/
import ImportResolution.Text.Segments

namespace ImportResolution

/-- Why a file could not be read. -/
inductive ReadFailure where
  | missing
  | denied
  | other
deriving DecidableEq, Repr

/-- A cause of failure. -/
inductive Fault where
  /-- A settings file that is no settings document, with the place of the first
  offence; `file` is there when it was read from a file. -/
  | settingsSyntax (file : Option String) (detail : String) (line column : Nat)
  /-- A JSON file that is not of the expected form. -/
  | json (path detail : String)
  /-- A setting or configuration field with a value that is not allowed. -/
  | invalidField (field reason : String)
  /-- Configurations that extend one another in a circle. -/
  | circularExtends (chain : List String)
  /-- Configurations that extend one another without end. This is never told, since the
  program does not return from there; it stands for the missing answer. -/
  | extendsTooDeep (path : String)
  /-- A package that no installed directory holds. -/
  | packageNotFound (name origin : String)
  /-- A specifier that leads to no file. -/
  | moduleNotFound (specifier : String)
  /-- A file that could not be read. -/
  | unreadable (message cause : String) (failure : ReadFailure)
deriving DecidableEq, Repr

namespace Fault

/-- How a cause is told. -/
def message : Fault → String
  | .settingsSyntax file detail line column =>
    let place := match file with
      | some path => "In file " ++ path ++ ": "
      | none => ""
    "Failed to parse locus.toml: " ++ place ++ detail ++ " at line " ++ toString line ++
      ", column " ++ toString column
  | .json path detail => "Failed to parse " ++ path ++ ": " ++ detail
  | .invalidField field reason => "Configuration field '" ++ field ++ "' is invalid: " ++ reason
  | .circularExtends chain => "Circular extends chain detected: " ++ " -> ".intercalate chain
  | .extendsTooDeep path => "Extends chain is too deep at " ++ path
  | .packageNotFound name origin => "Package '" ++ name ++ "' not found from " ++ origin
  | .moduleNotFound specifier => "Module not found: " ++ specifier
  | .unreadable message _ _ => "IO error: " ++ message

/-- The cause behind the cause, for files that could not be read. -/
def cause? : Fault → Option String
  | .unreadable _ cause _ => some cause
  | _ => none

/-- Whether something was not there, rather than broken. -/
def isNotFound : Fault → Bool
  | .packageNotFound .. => true
  | .moduleNotFound .. => true
  | .unreadable _ _ failure => failure == .missing
  | _ => false

/-- Whether work can go on; it cannot once the settings are wrong. -/
def isRecoverable : Fault → Bool
  | .settingsSyntax .. => false
  | .invalidField .. => false
  | _ => true

/-- What the user may do about it. -/
def advice? : Fault → Option String
  | .settingsSyntax .. => some "Check locus.toml syntax near the reported line"
  | .json .. =>
    some "Check JSON syntax; tsconfig files may contain comments and trailing commas"
  | .circularExtends .. =>
    some "Remove the circular reference from the tsconfig extends chain"
  | .packageNotFound .. =>
    some "Install workspace dependencies so node_modules is populated"
  | _ => none

end Fault

-- ============================================================== failures

/-- Why a whole task failed: a fault, or a plain remark. -/
inductive Reason where
  | fault (fault : Fault)
  | remark (text : String)
deriving DecidableEq, Repr

/-- A failed task, with what was being done, the outermost first. -/
structure Failure where
  context : List String
  reason : Reason
deriving DecidableEq, Repr

namespace Failure

/-- A fault by itself. -/
def ofFault (f : Fault) : Failure := ⟨[], .fault f⟩

/-- A remark by itself. -/
def ofRemark (text : String) : Failure := ⟨[], .remark text⟩

/-- The failure seen from a task around it. -/
def within (f : Failure) (task : String) : Failure :=
  { f with context := task :: f.context }

/-- An error line without its end. -/
def errorLine (text : String) : String := "error: " ++ text

/-- A warning. -/
def warning (text : String) : String := "warning: " ++ text

/-- A line that names a cause. -/
def causeLine (text : String) : String := "\ncaused by: " ++ text

/-- The report of a fault: its message, the advice, and the cause behind it. -/
def faultReport (f : Fault) : String :=
  errorLine f.message ++ "\n" ++
    (match f.advice? with
      | some advice => "\nhelp: " ++ advice ++ "\n"
      | none => "") ++
    (match f.cause? with
      | some cause => causeLine cause
      | none => "")

/-- The report of a failure. A fault is reported in full after a line for each
task around it; a remark is the innermost of a chain of causes. -/
def report (f : Failure) : String :=
  match f.reason with
  | .fault fault => String.join (f.context.map fun task => errorLine task ++ "\n") ++ faultReport fault
  | .remark text =>
    match f.context ++ [text] with
    | [] => ""
    | outermost :: causes => errorLine outermost ++ String.join (causes.map causeLine)

end Failure

end ImportResolution
