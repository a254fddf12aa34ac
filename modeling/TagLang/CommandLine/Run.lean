import TagLang.Check
import TagLang.CommandLine.Arguments
import TagLang.CommandLine.Directory
import TagLang.Text.Location

/-!
# A run of the command line

From arguments and files to an exit status and the lines that are printed.  All
files are read before any is checked.  The types of expression statements go to
standard output, diagnostics and errors to standard error, and the status is one
when a file has an error.

## Places of diagnostics

A diagnostic is shown with the place where its primary label starts.  Offsets of
labels are taken as counts of characters here.  A label that does not lie in the
text is left out, and a diagnostic all of whose labels are left out has no place.
-/

namespace TagLang.CommandLine

/-- What a run leaves: its exit status and what it prints. -/
structure Transcript where
  exit : Nat
  stdout : String
  stderr : List String
  deriving DecidableEq, Repr

/-! ## Diagnostics -/

/-- Whether a label lies in a text of so many characters. -/
def labelFits (length : Nat) (label : Label) : Bool :=
  label.span.start ≤ length &&
    (label.span.stop ≤ label.span.start || label.span.stop - 1 ≤ length)

/-- The line and the column of an offset, or question marks if it lies outside. -/
def placeText (text : List Char) (offset : Nat) : String :=
  match Text.locate? text offset with
  | some location => location.text
  | none => "?:?"

/-- The line that names the place of a diagnostic. -/
def placeLine? (file : String) (text : List Char) (diagnostic : Diagnostic) : Option String :=
  if diagnostic.labels.any (labelFits text.length) then
    some ("at " ++ file ++ ":" ++ placeText text diagnostic.primary.span.start)
  else none

/-- The line that names a diagnostic. -/
def headerLine (diagnostic : Diagnostic) : String :=
  let severity := match diagnostic.severity with
    | .error => "Error"
    | .warning => "Warning"
  s!"[{diagnostic.code.id}] {severity}: {diagnostic.message}"

/-- The lines of a diagnostic. -/
def diagnosticLines (file : String) (text : List Char) (diagnostic : Diagnostic) : List String :=
  headerLine diagnostic :: (placeLine? file text diagnostic).toList

/-! ## Checking files -/

/-- Reads a file as text. -/
def readText (system : FileSystem) (file : String) : Except ReadFault String :=
  match system file with
  | .error fault => .error fault
  | .ok bytes =>
    match String.fromUTF8? bytes with
    | some text => .ok text
    | none => .error .notText

/-- Reads files in order, up to the first that cannot be read. -/
def readTexts (system : FileSystem) : List String → Except (String × ReadFault) (List String)
  | [] => .ok []
  | file :: rest =>
    match readText system file with
    | .error fault => .error (file, fault)
    | .ok text => (readTexts system rest).map (text :: ·)

/-- A file with its text and its report. -/
structure CheckedFile where
  file : String
  text : String
  report : Report

/-- Files with their texts and reports. -/
def checked (limit : Nat) (files texts : List String) : List CheckedFile :=
  (files.zip texts).map fun (file, text) => ⟨file, text, check limit text⟩

/-- The line that shows the tag of an expression statement. -/
def typeLine (file : String) (statement : Statement) : String :=
  s!"{file}:{statement.span.start}..{statement.span.stop}: {statement.tag.name}\n"

namespace CheckedFile

/-- The lines that show the tags of the expression statements. -/
def typeLines (checked : CheckedFile) : List String :=
  checked.report.statements.map (typeLine checked.file)

/-- The lines of the diagnostics. -/
def lines (checked : CheckedFile) : List String :=
  checked.report.log.diagnostics.flatMap (diagnosticLines checked.file checked.text.toList)

end CheckedFile

/-- The line that counts the files with errors. -/
def summaryLine (failed total : Nat) : String :=
  s!"Type checking failed in {failed} of {total} file(s)."

/-- What a run prints about checked files. -/
def transcriptOf (printTypes : Bool) (files : List CheckedFile) : Transcript :=
  let failed := files.countP (·.report.hasErrors)
  { exit := if failed = 0 then 0 else 1
    stdout := String.join (if printTypes then files.flatMap CheckedFile.typeLines else [])
    stderr := files.flatMap CheckedFile.lines ++
      if failed = 0 then [] else [summaryLine failed files.length] }

/-- The line that reports a file that cannot be read. -/
def readErrorLine (file : String) (fault : ReadFault) : String :=
  "Error: Read \x7b path: " ++ Text.quoted file ++ ", source: " ++ fault.text ++ " \x7d"

/-- Checks files. -/
def checkFiles (system : FileSystem) (files : List String) (limit : Nat) (printTypes : Bool) :
    Transcript :=
  match readTexts system files with
  | .error (file, fault) => ⟨1, "", [readErrorLine file fault]⟩
  | .ok texts => transcriptOf printTypes (checked limit files texts)

/-! ## Runs -/

/-- Explains a code. -/
def explain (text : String) : Transcript :=
  match Code.ofText? text with
  | some code => ⟨0, s!"{code.id}: {code.title}\n\n{code.explanation}\n", []⟩
  | none => ⟨1, "", ["Error: UnknownCode(" ++ Text.quoted text ++ ")"]⟩

/-- The name and the version of the program. -/
def versionText : String := "tagcheck 0.1.0"

/-- How to call the program. -/
def usageText : String :=
  "Usage: tagcheck [--max-depth <MAX_DEPTH>] [--print-types] [-v] [--explain <CODE>] [FILES]..."

/-- Runs the command line. -/
def run (system : FileSystem) (arguments : List String) : Transcript :=
  match Request.ofArguments arguments with
  | .ok (.explain code) => explain code
  | .ok (.check files limit printTypes) => checkFiles system files limit printTypes
  | .error .version => ⟨0, versionText ++ "\n", []⟩
  | .error .help => ⟨0, usageText ++ "\n", []⟩
  | .error (.usage error) => ⟨2, "", ["error: " ++ error.message]⟩

end TagLang.CommandLine
