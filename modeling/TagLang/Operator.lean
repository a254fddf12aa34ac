/-!
# Operators

The unary and binary operators of the language, their symbols, and the levels of
precedence.  A level binds tighter than the ones after it in `Level.loosening`;
operators of one level group to the left.
-/

namespace TagLang

/-- The operators written before their operand. -/
inductive UnaryOp where
  | negate
  | not
  deriving DecidableEq, Repr

/-- The operators written between two operands. -/
inductive BinaryOp where
  | add
  | subtract
  | multiply
  | divide
  | modulo
  | and
  | or
  | less
  | lessEq
  | greater
  | greaterEq
  | equal
  | notEqual
  deriving DecidableEq, Repr

/-- An operator of either arity. -/
inductive Operator where
  | unary (op : UnaryOp)
  | binary (op : BinaryOp)
  deriving DecidableEq, Repr

/-- The levels of precedence of the binary operators. -/
inductive Level where
  | product
  | sum
  | comparison
  | equality
  | conjunction
  | disjunction
  deriving DecidableEq, Repr

/-- The levels from the tightest to the loosest. -/
def Level.loosening : List Level :=
  [product, sum, comparison, equality, conjunction, disjunction]

/-- How tightly a level binds; the loosest level has rank `0`. -/
def Level.rank : Level → Nat
  | product => 5
  | sum => 4
  | comparison => 3
  | equality => 2
  | conjunction => 1
  | disjunction => 0

namespace UnaryOp

/-- How the operator is written. -/
def symbol : UnaryOp → String
  | negate => "-"
  | not => "!"

/-- Every unary operator. -/
def all : List UnaryOp :=
  [negate, not]

/-- The unary operator with the given symbol. -/
def ofSymbol? (text : String) : Option UnaryOp :=
  all.find? fun op => op.symbol == text

end UnaryOp

namespace BinaryOp

/-- How the operator is written. -/
def symbol : BinaryOp → String
  | add => "+"
  | subtract => "-"
  | multiply => "*"
  | divide => "/"
  | modulo => "%"
  | and => "&&"
  | or => "||"
  | less => "<"
  | lessEq => "<="
  | greater => ">"
  | greaterEq => ">="
  | equal => "=="
  | notEqual => "!="

/-- Every binary operator. -/
def all : List BinaryOp :=
  [add, subtract, multiply, divide, modulo, and, or, less, lessEq, greater, greaterEq,
    equal, notEqual]

/-- The binary operator with the given symbol. -/
def ofSymbol? (text : String) : Option BinaryOp :=
  all.find? fun op => op.symbol == text

/-- The level of precedence that the operator belongs to. -/
def level : BinaryOp → Level
  | multiply | divide | modulo => .product
  | add | subtract => .sum
  | less | lessEq | greater | greaterEq => .comparison
  | equal | notEqual => .equality
  | and => .conjunction
  | or => .disjunction

end BinaryOp

namespace Operator

/-- How the operator is written. -/
def symbol : Operator → String
  | unary op => op.symbol
  | binary op => op.symbol

/-- Every operator, the unary ones first. -/
def all : List Operator :=
  UnaryOp.all.map unary ++ BinaryOp.all.map binary

end Operator

end TagLang
