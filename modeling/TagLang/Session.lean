import TagLang.Analysis
import TagLang.Nesting
import TagLang.Tree.Draft

/-!
# Reading, resolving and analysing with a log

The stages of the checker, with their diagnostics put into a log.

* `Log.parse` reads a source.  It first counts the nesting of the tokens
  (`Log.checkNesting`) and then builds the tree (`Log.readProgram`).  The tree is withheld as
  soon as the log holds an error.
* `Context.resolve` resolves an expression from any starting point.
* `Session` keeps scopes and a log from one step to the next.
-/

namespace TagLang

/-- How deep programs may be nested unless something else is asked for. -/
def defaultLimit : Nat := 256

/-! ## Reading a source -/

/-- Reports the place at which the nesting exceeds the limit, and tells whether there is
none. -/
def Log.reportNesting (log : Log) (limit : Nat) : Option Span → Bool × Log
  | none => (true, log)
  | some span => (false, log.report (Finding.tooDeep limit span).diagnostic)

/-- The stage of reading that checks the nesting: whether it is within the limit, and the log. -/
def Log.checkNesting (log : Log) (limit : Nat) (ts : List Located) : Bool × Log :=
  log.reportNesting limit (Nesting.exceeding? limit ts)

/-- The stage of reading that builds the tree, after the nesting has been checked.  The tree is
given out only when the log holds no error. -/
def Log.readProgram (log : Log) (source : String) : Option Program × Log :=
  match Program.ofTokens source.utf8ByteSize (tokens source) with
  | .error error => (none, log.report error.diagnostic)
  | .ok program => (if log.hasErrors then none else some program, log)

/-- Reads the program in a source.  Stray text does not stop the reading, but an error of it
keeps the tree back. -/
def Log.parse (log : Log) (limit : Nat) (source : String) : Option Program × Log :=
  let checked := (log.append ((strays source).map Stray.diagnostic)).checkNesting limit
    (tokens source)
  if checked.1 then checked.2.readProgram source else (none, checked.2)

/-- The log with the diagnostics of some findings. -/
def Log.record (log : Log) (findings : List Finding) : Log :=
  log.append (findings.map Finding.diagnostic)

/-! ## Resolving an expression -/

/-- Where a resolution starts: the visible declarations, the expectation, the
depth already reached and its limit, whether the limit has been reported, and the
log. -/
structure Context where
  scopes : Scopes
  limit : Nat
  expected : Option Tag
  depth : Nat
  exceeded : Bool
  log : Log

/-- Resolves an expression.  Only the flag and the log change. -/
def Context.resolve (context : Context) (e : Expr) : Tag × Context :=
  let env : Env := ⟨context.scopes, context.limit⟩
  let outcome := e.resolve env context.expected context.depth context.exceeded
  (outcome.tag,
    { context with exceeded := outcome.exceeded, log := context.log.record outcome.findings })

/-! ## Sessions -/

/-- Scopes, limit and log of a running analysis. -/
structure Session where
  scopes : Scopes
  limit : Nat
  log : Log

namespace Session

/-- A session in which nothing is declared. -/
def start (limit : Nat) (log : Log) : Session :=
  ⟨.empty, limit, log⟩

/-- The starting point of a resolution in the session. -/
def context (session : Session) (expected : Option Tag) : Context :=
  ⟨session.scopes, session.limit, expected, 0, false, session.log⟩

/-- Resolves an expression in the session. -/
def resolve (session : Session) (expected : Option Tag) (e : Expr) : Tag × Session :=
  let (tag, context) := (session.context expected).resolve e
  (tag, { session with log := context.log })

/-- Analyses a program in the session, and keeps its declarations. -/
def analyze (session : Session) (program : Program) : List Statement × Session :=
  let analysis := program.analyze ⟨session.scopes, session.limit⟩
  (analysis.statements,
    { session with scopes := analysis.scopes, log := session.log.record analysis.findings })

end Session

end TagLang
