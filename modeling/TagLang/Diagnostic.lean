import TagLang.Diagnostic.Code
import TagLang.Span

/-!
# Diagnostics

A diagnostic is a code with a message, labels that point into the source, and
notes.  The first label is the primary one, and every diagnostic has it.  A log
is the list of diagnostics of one source, in the order in which they were
reported.
-/

namespace TagLang

/-- A remark on a place of the source. -/
structure Label where
  span : Span
  message : String
  deriving DecidableEq, Repr

/-- A report on a source. -/
structure Diagnostic where
  code : Code
  message : String
  primary : Label
  secondary : List Label
  notes : List String
  deriving DecidableEq, Repr

/-- Why a diagnostic could not be made. -/
inductive BuildError where
  /-- An error was asked for, and the code is that of a warning. -/
  | notAnError
  /-- A warning was asked for, and the code is that of an error. -/
  | notAWarning
  /-- The number of an argument, counted from one, does not fit a machine word. -/
  | positionOverflow
  deriving DecidableEq, Repr

/-- The message of a failure to make a diagnostic. -/
def BuildError.message : BuildError → String
  | notAnError => "Tried to create an error diagnostic with a non-error code."
  | notAWarning => "Tried to create a warning diagnostic with a non-warning code."
  | positionOverflow => "attempt to add with overflow"

namespace Diagnostic

/-- A diagnostic with the title of its code as message. -/
def ofCode (code : Code) (primary : Label) : Diagnostic :=
  ⟨code, code.title, primary, [], []⟩

/-- A diagnostic with the code of an error. -/
def error (code : Code) (primary : Label) : Except BuildError Diagnostic :=
  match code.severity with
  | .error => .ok (ofCode code primary)
  | .warning => .error .notAnError

/-- A diagnostic with the code of a warning. -/
def warning (code : Code) (primary : Label) : Except BuildError Diagnostic :=
  match code.severity with
  | .warning => .ok (ofCode code primary)
  | .error => .error .notAWarning

/-- How serious the diagnostic is. -/
def severity (diagnostic : Diagnostic) : Severity :=
  diagnostic.code.severity

/-- All labels, the primary one first. -/
def labels (diagnostic : Diagnostic) : List Label :=
  diagnostic.primary :: diagnostic.secondary

/-- The diagnostic with another message. -/
def withMessage (diagnostic : Diagnostic) (message : String) : Diagnostic :=
  { diagnostic with message := message }

/-- The diagnostic with one more label. -/
def withLabel (diagnostic : Diagnostic) (label : Label) : Diagnostic :=
  { diagnostic with secondary := diagnostic.secondary ++ [label] }

/-- The diagnostic with one more note. -/
def withNote (diagnostic : Diagnostic) (note : String) : Diagnostic :=
  { diagnostic with notes := diagnostic.notes ++ [note] }

/-- Whether the diagnostic is an error. -/
def isError (diagnostic : Diagnostic) : Bool :=
  diagnostic.severity = .error

end Diagnostic

/-- The diagnostics of one source, in the order of their reports. -/
structure Log where
  diagnostics : List Diagnostic
  deriving DecidableEq, Repr

namespace Log

/-- Nothing is reported. -/
def empty : Log :=
  ⟨[]⟩

/-- The log after more reports. -/
def append (log : Log) (diagnostics : List Diagnostic) : Log :=
  ⟨log.diagnostics ++ diagnostics⟩

/-- The log after one more report. -/
def report (log : Log) (diagnostic : Diagnostic) : Log :=
  log.append [diagnostic]

/-- How many diagnostics there are. -/
def size (log : Log) : Nat :=
  log.diagnostics.length

/-- Whether nothing is reported. -/
def isEmpty (log : Log) : Bool :=
  log.diagnostics.isEmpty

/-- Whether some diagnostic is an error. -/
def hasErrors (log : Log) : Bool :=
  log.diagnostics.any Diagnostic.isError

/-- How many diagnostics are errors. -/
def errorCount (log : Log) : Nat :=
  log.diagnostics.countP Diagnostic.isError

end Log

end TagLang
