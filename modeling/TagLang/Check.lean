import TagLang.Session

/-!
# Checking sources

The whole checker: a source is read, and if that succeeds its program is
analysed.  Sources are checked independently of each other.
-/

namespace TagLang

/-- The result of checking a source: its diagnostics, and the tags of its
expression statements.  The latter are missing when the source could not be
read. -/
structure Report where
  log : Log
  statements : List Statement
  deriving DecidableEq, Repr

/-- Whether the report holds an error. -/
def Report.hasErrors (report : Report) : Bool :=
  report.log.hasErrors

/-- Checks a source whose nesting is limited. -/
def check (limit : Nat) (source : String) : Report :=
  match Log.empty.parse limit source with
  | (none, log) => ⟨log, []⟩
  | (some program, log) =>
    let (statements, session) := (Session.start limit log).analyze program
    ⟨session.log, statements⟩

/-- Checks several sources, each on its own. -/
def checkAll (limit : Nat) (sources : List String) : List Report :=
  sources.map (check limit)

/-- The bytes of stack that checking a source is given: a fixed amount for each
level of nesting, but no less than eight mebibytes and no more than a machine
word holds. -/
def stackSize (limit : Nat) : Nat :=
  max (min (limit * (256 * 1024)) (UInt64.size - 1)) (8 * 1024 * 1024)

end TagLang
