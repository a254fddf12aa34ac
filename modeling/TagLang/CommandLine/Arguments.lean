import TagLang.Session
import TagLang.Token.Lexeme

/-!
# Arguments of the command line

The arguments are read from left to right.  An option that takes a value takes
it after an equals sign or from the next argument, and options may stand between
file names.  After `--` every argument is a file name.

What an argument says is settled when the next one is read, or at the end: until
then it waits.  An argument that is not known is therefore reported before a bad
value just in front of it.
-/

namespace TagLang.CommandLine

/-! ## Numbers -/

/-- Why a text is not a number. -/
inductive NumberError where
  | empty
  | invalidDigit
  | tooLarge
  deriving DecidableEq, Repr

/-- The message of a text that is not a number. -/
def NumberError.message : NumberError → String
  | empty => "cannot parse integer from empty string"
  | invalidDigit => "invalid digit found in string"
  | tooLarge => "number too large to fit in target type"

/-- Continues a number with more digits, as long as it fits a machine word. -/
def readDigits (value : Nat) : List Char → Except NumberError Nat
  | [] => .ok value
  | c :: rest =>
    if isDigit c then
      let next := value * 10 + (c.toNat - '0'.toNat)
      if next < 2 ^ 64 then readDigits next rest else .error .tooLarge
    else .error .invalidDigit

/-- Reads a number; a plus sign may stand before the digits. -/
def readNumber : List Char → Except NumberError Nat
  | [] => .error .empty
  | ['+'] => .error .invalidDigit
  | '+' :: digits => readDigits 0 digits
  | digits => readDigits 0 digits

/-! ## Options -/

/-- The options that take a value. -/
inductive ValueOption where
  | maxDepth
  | explain
  deriving DecidableEq, Repr

/-- The options that take none. -/
inductive Flag where
  | printTypes
  | verbose
  | version
  | help
  deriving DecidableEq, Repr

/-- How a value option is named in messages. -/
def ValueOption.text : ValueOption → String
  | maxDepth => "--max-depth <MAX_DEPTH>"
  | explain => "--explain <CODE>"

/-- How a flag is named in messages. -/
def Flag.text : Flag → String
  | printTypes => "--print-types"
  | verbose => "--verbose"
  | version => "--version"
  | help => "--help"

/-- The value option with a long name. -/
def ValueOption.ofLong? : String → Option ValueOption
  | "max-depth" => some maxDepth
  | "explain" => some explain
  | _ => none

/-- The flag with a long name. -/
def Flag.ofLong? : String → Option Flag
  | "print-types" => some printTypes
  | "verbose" => some verbose
  | "version" => some version
  | "help" => some help
  | _ => none

/-- The flag with a short name. -/
def Flag.ofShort? : Char → Option Flag
  | 'v' => some verbose
  | 'V' => some version
  | 'h' => some help
  | _ => none

/-- How the list of files is named in messages. -/
def filesText : String := "[FILES]..."

/-! ## Errors -/

/-- Why the arguments cannot be understood. -/
inductive UsageError where
  | missingFiles
  | unexpectedArgument (argument : String)
  | missingValue (option : String)
  | unneededValue (value option : String)
  | repeated (option : String)
  | invalidLimit (value : String) (reason : NumberError)
  deriving DecidableEq, Repr

/-- The message of a usage error. -/
def UsageError.message : UsageError → String
  | missingFiles => "the following required arguments were not provided:"
  | unexpectedArgument argument => s!"unexpected argument '{argument}' found"
  | missingValue option => s!"a value is required for '{option}' but none was supplied"
  | unneededValue value option =>
    s!"unexpected value '{value}' for '{option}' found; no more were expected"
  | repeated option => s!"the argument '{option}' cannot be used multiple times"
  | invalidLimit value reason =>
    s!"invalid value '{value}' for '{ValueOption.maxDepth.text}': {reason.message}"

/-- Why the reading of arguments ends early. -/
inductive Stop where
  | usage (error : UsageError)
  | version
  | help
  deriving DecidableEq, Repr

/-! ## Reading -/

/-- What the arguments have settled so far. -/
structure Settings where
  files : List String
  limit : Option Nat
  explain : Option String
  printTypes : Bool
  verbose : Bool
  deriving DecidableEq, Repr

/-- What waits to be settled: an option, with its value once that is read, or a
run of file names. -/
inductive Waiting where
  | option (option : ValueOption) (value : Option String)
  | files (names : List String)
  deriving DecidableEq, Repr

/-- The state of the reading.  After `--` everything is taken `literally`. -/
structure Reading where
  settings : Settings
  waiting : Option Waiting
  literally : Bool
  deriving DecidableEq, Repr

namespace Settings

/-- Nothing is settled. -/
def empty : Settings :=
  ⟨[], none, none, false, false⟩

/-- Settles an option; none may be given twice. -/
def setValue (settings : Settings) (value : String) : ValueOption → Except UsageError Settings
  | .maxDepth =>
    match settings.limit, readNumber value.toList with
    | some _, _ => .error (.repeated ValueOption.maxDepth.text)
    | none, .ok limit => .ok { settings with limit := some limit }
    | none, .error reason => .error (.invalidLimit value reason)
  | .explain =>
    match settings.explain with
    | some _ => .error (.repeated ValueOption.explain.text)
    | none => .ok { settings with explain := some value }

/-- Settles a flag; none may be given twice. -/
def setFlag (settings : Settings) : Flag → Except Stop Settings
  | .printTypes =>
    if settings.printTypes then .error (.usage (.repeated Flag.printTypes.text))
    else .ok { settings with printTypes := true }
  | .verbose =>
    if settings.verbose then .error (.usage (.repeated Flag.verbose.text))
    else .ok { settings with verbose := true }
  | .version => .error .version
  | .help => .error .help

/-- Settles what waits.  A file has to have a name. -/
def settle (settings : Settings) : Option Waiting → Except UsageError Settings
  | none => .ok settings
  | some (.option option none) => .error (.missingValue option.text)
  | some (.option option (some value)) => settings.setValue value option
  | some (.files names) =>
    if names.contains "" then .error (.missingValue filesText)
    else .ok { settings with files := settings.files ++ names }

end Settings

namespace Reading

/-- Nothing is read. -/
def start : Reading :=
  ⟨.empty, none, false⟩

/-- The settings with what waits. -/
def settled (reading : Reading) : Except Stop Settings :=
  (reading.settings.settle reading.waiting).mapError .usage

/-- Reads a flag. -/
def flag (reading : Reading) (flag : Flag) : Except Stop Reading := do
  let settings ← (← reading.settled).setFlag flag
  return ⟨settings, none, reading.literally⟩

/-- Reads a file name. -/
def file (reading : Reading) (name : String) : Except Stop Reading :=
  match reading.waiting with
  | some (.files names) => .ok { reading with waiting := some (.files (names ++ [name])) }
  | _ => do
    let settings ← reading.settled
    return ⟨settings, some (.files [name]), reading.literally⟩

/-- Reads an option with a long name, and its value after an equals sign if
there is one. -/
def long (reading : Reading) (name : String) (attached : Option String) :
    Except Stop Reading :=
  match ValueOption.ofLong? name, Flag.ofLong? name, attached with
  | some option, _, some value => do
    let settings ← ((← reading.settled).setValue value option).mapError .usage
    return ⟨settings, none, reading.literally⟩
  | some option, _, none => do
    let settings ← reading.settled
    return ⟨settings, some (.option option none), reading.literally⟩
  | none, some flag, none => reading.flag flag
  | none, some flag, some value => .error (.usage (.unneededValue value flag.text))
  | none, none, _ => .error (.usage (.unexpectedArgument ("--" ++ name)))

/-- Reads flags with short names, one after the other. -/
def shorts (reading : Reading) : List Char → Except Stop Reading
  | [] => .ok reading
  | c :: rest =>
    match Flag.ofShort? c with
    | none => .error (.usage (.unexpectedArgument ("-" ++ c.toString)))
    | some flag => do
      let reading ← reading.flag flag
      reading.shorts rest

/-- Reads one argument. -/
def next (reading : Reading) (argument : String) : Except Stop Reading :=
  if reading.literally then reading.file argument
  else
    match argument.toList, reading.waiting with
    | ['-', '-'], _ => .ok { reading with literally := true }
    | '-' :: '-' :: rest, _ =>
      let name := rest.takeWhile (· ≠ '=')
      let attached := (rest.dropWhile (· ≠ '=')).tail?
      reading.long (String.ofList name) (attached.map String.ofList)
    | '-' :: c :: rest, _ => reading.shorts (c :: rest)
    | _, some (.option option none) =>
      .ok { reading with waiting := some (.option option (some argument)) }
    | _, _ => reading.file argument

end Reading

/-- What the command line asks for. -/
inductive Request where
  | explain (code : String)
  | check (files : List String) (limit : Nat) (printTypes : Bool)
  deriving DecidableEq, Repr

/-- Reads the arguments.  An explanation needs no files. -/
def Request.ofArguments (arguments : List String) : Except Stop Request := do
  let reading ← arguments.foldlM Reading.next Reading.start
  let settings ← reading.settled
  match settings.explain, settings.files with
  | some code, _ => return .explain code
  | none, [] => throw (.usage .missingFiles)
  | none, files => return .check files (settings.limit.getD defaultLimit) settings.printTypes

end TagLang.CommandLine
