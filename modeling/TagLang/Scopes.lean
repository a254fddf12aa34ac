import TagLang.Symbol
import TagLang.Tree

/-!
# Nested scopes

The declarations that are visible at a point of a program.  Scopes are nested,
and there is always a current one.  A name is declared at most once in a scope;
an inner declaration hides an outer one of the same name.

A scope lists its declarations with the earliest first, so that the first one
with a name is the one that counts.
-/

namespace TagLang

/-- A declared name and what it stands for. -/
structure Declaration where
  name : Name
  symbol : Symbol
  deriving DecidableEq, Repr

/-- The declarations of one scope, the earliest first. -/
abbrev Scope := List Declaration

/-- The declaration of a name in a scope. -/
def Scope.find? (scope : Scope) (text : String) : Option Declaration :=
  List.find? (fun declaration => declaration.name.text == text) scope

/-- The current scope and the ones around it, the innermost first. -/
structure Scopes where
  current : Scope
  outer : List Scope
  deriving DecidableEq, Repr

/-- A name that the current scope already declares, and the place where it does. -/
structure Duplicate where
  text : String
  previous : Span
  deriving DecidableEq, Repr

/-- The message of a duplicate declaration. -/
def Duplicate.message (duplicate : Duplicate) : String :=
  s!"symbol '{duplicate.text}' is already declared in this scope"

namespace Scopes

/-- One scope without declarations. -/
def empty : Scopes :=
  ⟨[], []⟩

/-- The number of scopes. -/
def depth (scopes : Scopes) : Nat :=
  scopes.outer.length + 1

/-- Opens a scope inside the current one. -/
def enter (scopes : Scopes) : Scopes :=
  ⟨[], scopes.current :: scopes.outer⟩

/-- Closes the current scope.  The outermost one stays open. -/
def exit (scopes : Scopes) : Scopes :=
  match scopes.outer with
  | [] => scopes
  | current :: outer => ⟨current, outer⟩

/-- Declares a name in the current scope, unless that already declares it. -/
def declare (scopes : Scopes) (name : Name) (symbol : Symbol) : Except Duplicate Scopes :=
  match scopes.current.find? name.text with
  | some declaration => .error ⟨name.text, declaration.name.span⟩
  | none => .ok { scopes with current := scopes.current ++ [⟨name, symbol⟩] }

/-- The innermost declaration of a name. -/
def find? (scopes : Scopes) (text : String) : Option Declaration :=
  (scopes.current :: scopes.outer).findSome? (·.find? text)

/-- What a name stands for. -/
def symbol? (scopes : Scopes) (text : String) : Option Symbol :=
  (scopes.find? text).map (·.symbol)

/-- The number of parameters, if the name stands for a function. -/
def arity? (scopes : Scopes) (text : String) : Option Nat :=
  (scopes.symbol? text).bind Symbol.arity?

/-- The place of the declaration that one in the current scope hides. -/
def shadowed? (scopes : Scopes) (text : String) : Option Span :=
  (scopes.outer.findSome? (·.find? text)).map (·.name.span)

end Scopes

end TagLang
