import TagLang.Base
import TagLang.Operator
import TagLang.Span

/-!
# Syntax trees

Programs as trees: a program is a list of items, an item declares a variable or
a function, groups items in a block, or is an expression.  Every node knows the
span of its text.  Parentheses leave no node.
-/

namespace TagLang

/-- A name where it is written. -/
structure Name where
  text : String
  span : Span
  deriving DecidableEq, Repr

/-- A type ascription: the base types written in it, in order. -/
structure Ascription where
  members : List Base
  span : Span
  deriving DecidableEq, Repr

/-- A literal.  An integer keeps its digits. -/
inductive Literal where
  | int (digits : String)
  | str (value : String)
  | bool (value : Bool)
  deriving DecidableEq, Repr

/-- An expression. -/
inductive Expr where
  | literal (value : Literal) (span : Span)
  | var (name : Name) (span : Span)
  | call (callee : Name) (arguments : List Expr) (span : Span)
  | unary (op : UnaryOp) (operand : Expr) (span : Span)
  | binary (op : BinaryOp) (left right : Expr) (span : Span)
  | conditional (condition consequent alternative : Expr) (span : Span)

/-- A parameter of a function; its ascription may be left out. -/
structure Parameter where
  name : Name
  ascription : Option Ascription
  deriving DecidableEq, Repr

/-- The declaration of a variable. -/
structure VarDecl where
  name : Name
  ascription : Ascription
  initializer : Option Expr
  span : Span

/-- The declaration of a function. -/
structure FnDecl where
  name : Name
  parameters : List Parameter
  result : Ascription
  span : Span
  deriving DecidableEq, Repr

/-- An item of a program. -/
inductive Item where
  | var (declaration : VarDecl)
  | fn (declaration : FnDecl)
  | block (items : List Item) (span : Span)
  | expr (expression : Expr)

/-- A whole program. -/
structure Program where
  items : List Item
  span : Span

namespace Expr

/-- The span of an expression. -/
def span : Expr → Span
  | literal _ span => span
  | var _ span => span
  | call _ _ span => span
  | unary _ _ span => span
  | binary _ _ _ span => span
  | conditional _ _ _ span => span

mutual

/-- The number of nodes on the longest path from the root; a leaf has height
one. -/
def height : Expr → Nat
  | literal _ _ => 1
  | var _ _ => 1
  | call _ arguments _ => heights arguments + 1
  | unary _ operand _ => operand.height + 1
  | binary _ left right _ => max left.height right.height + 1
  | conditional condition consequent alternative _ =>
    max condition.height (max consequent.height alternative.height) + 1

/-- The greatest height in a list of expressions. -/
def heights : List Expr → Nat
  | [] => 0
  | e :: rest => max e.height (heights rest)

end

end Expr

end TagLang
