import TagLang.CommandLine.Run

/-!
# The program

Reads the files that the arguments name, runs the command line on them, and
prints what that leaves.
-/

namespace TagLang.CommandLine

/-- The number of a system error, which may be reported with a minus sign. -/
def errorNumber (reported : UInt32) : Nat :=
  reported.toInt32.toInt.natAbs

/-- A system error as a fault of reading. -/
def faultOfError : IO.Error → ReadFault
  | .noFileOrDirectory _ _ _ => .notFound
  | .permissionDenied _ number _ =>
    .system (errorNumber number) "PermissionDenied" "Permission denied"
  | .inappropriateType _ number _ =>
    if errorNumber number = 20 then .notADirectory else .isADirectory
  | .invalidArgument _ number message =>
    if errorNumber number = 36 then .nameTooLong
    else .system (errorNumber number) "InvalidInput" message
  | error => .system 0 "Other" (toString error)

/-- Reads a file in the world outside. -/
def readFile (file : String) : IO (String × Except ReadFault ByteArray) := do
  try
    let bytes ← IO.FS.readBinFile file
    return (file, .ok bytes)
  catch error =>
    return (file, .error (faultOfError error))

/-- The files that the arguments ask to read. -/
def filesOf (arguments : List String) : List String :=
  match Request.ofArguments arguments with
  | .ok (.check files _ _) => files
  | _ => []

end TagLang.CommandLine

open TagLang.CommandLine in
/-- Runs the program. -/
def main (arguments : List String) : IO UInt32 := do
  let contents ← (filesOf arguments).mapM readFile
  let system : FileSystem := fun file => (contents.lookup file).getD (.error .notFound)
  let transcript := run system arguments
  IO.print transcript.stdout
  for line in transcript.stderr do
    IO.eprintln line
  return UInt32.ofNat transcript.exit
