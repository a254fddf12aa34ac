import TagLang.Token

/-!
# Nesting of tokens

An estimate of how deep a program is nested, taken from its tokens alone.  Every
open bracket or brace counts one, and so does every `if` until the expression
around it ends: at a semicolon or comma on its own level, or at the bracket that
closes its level.  Any closing bracket closes the innermost open one, and one
that closes nothing is ignored.

`Nesting.exceeding?` finds the first token at which the count passes a limit.
-/

namespace TagLang

/-- The running count.  `depth` is the total, `ifs` counts the `if`s of the
innermost level, and `outer` those of the levels around it, innermost first. -/
structure Nesting where
  depth : Nat
  ifs : Nat
  outer : List Nat
  deriving DecidableEq, Repr

namespace Nesting

/-- Nothing is open. -/
def start : Nesting :=
  ⟨0, 0, []⟩

/-- The count after one more token. -/
def step (n : Nesting) : Token → Nesting
  | .leftParen | .leftBrace => ⟨n.depth + 1, 0, n.ifs :: n.outer⟩
  | .rightParen | .rightBrace =>
    match n.outer with
    | [] => n
    | ifs :: outer => ⟨n.depth - (1 + n.ifs), ifs, outer⟩
  | .kwIf => ⟨n.depth + 1, n.ifs + 1, n.outer⟩
  | .semicolon | .comma => ⟨n.depth - n.ifs, 0, n.outer⟩
  | _ => n

/-- The place of the first token at which the count, continued from `n`, passes
the limit. -/
def exceedingFrom? (limit : Nat) (n : Nesting) : List Located → Option Span
  | [] => none
  | t :: rest =>
    let n := n.step t.token
    if limit < n.depth then some t.span else exceedingFrom? limit n rest

/-- The place of the first token at which the count passes the limit. -/
def exceeding? (limit : Nat) (tokens : List Located) : Option Span :=
  exceedingFrom? limit start tokens

end Nesting

end TagLang
