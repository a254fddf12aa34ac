import TagLang.Tree

/-!
# Grouping by precedence

Operands joined by binary operators are first read as a flat chain and then
grouped.  `merge` groups the operators of one level, from left to right, and
leaves the others where they are; `assemble` does so level by level, the tightest
first.  Every operator belongs to a level, so in the end one expression is left.
-/

namespace TagLang

namespace Expr

/-- The application of a binary operator; it spans both operands. -/
def combine (left : Expr) (op : BinaryOp) (right : Expr) : Expr :=
  binary op left right (left.span.hull right.span)

/-- The application of a unary operator that stands at `place`. -/
def apply (op : UnaryOp) (place : Span) (operand : Expr) : Expr :=
  unary op operand (place.hull operand.span)

end Expr

/-- A first operand, and the operators after it with their right operands. -/
abbrev Flat := Expr × List (BinaryOp × Expr)

/-- Groups the operators of one level, leftmost first. -/
def merge (level : Level) (first : Expr) : List (BinaryOp × Expr) → Flat
  | [] => (first, [])
  | (op, next) :: rest =>
    if op.level = level then merge level (first.combine op next) rest
    else
      let merged := merge level next rest
      (first, (op, merged.1) :: merged.2)

/-- Groups a flat chain into one expression. -/
def assemble (flat : Flat) : Expr :=
  (Level.loosening.foldl (fun flat level => merge level flat.1 flat.2) flat).1

end TagLang
