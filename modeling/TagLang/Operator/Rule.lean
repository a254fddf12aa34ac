import TagLang.Operator
import TagLang.Tag.Lattice
import TagLang.Tag.Marked

/-!
# Typing rules of operators

Each operator has one rule: the tags that it accepts as operands, the tag of its
result, its family, and whether its two operands have to agree on a tag.
`Operator.rule` is total, so no operator lacks a rule.
-/

namespace TagLang

/-- The families of operators. -/
inductive Family where
  | arithmetic
  | logical
  | relational
  deriving DecidableEq, Repr

namespace Family

/-- The name of a family. -/
def name : Family → String
  | arithmetic => "arithmetic"
  | logical => "logical"
  | relational => "relational"

/-- The mark that a family leaves on its results. -/
def mark : Family → Option Mark
  | arithmetic => none
  | logical => some .logical
  | relational => some .relational

end Family

/-- How an operator treats its operands. -/
structure Rule where
  /-- The accepted operand tags, in the order in which they are tried. -/
  accepted : List Tag
  /-- The tag of the result. -/
  result : Tag
  family : Family
  /-- Both operands have to be compatible with one accepted tag. -/
  sameOperands : Bool
  deriving DecidableEq, Repr

namespace Rule

/-- Arithmetic takes integers to an integer. -/
def arithmetic : Rule :=
  ⟨[.int, .arith], .int, .arithmetic, false⟩

/-- Logical operators take booleans to a boolean. -/
def logical : Rule :=
  ⟨[.bool], .bool, .logical, false⟩

/-- Ordering compares two integers or two strings. -/
def ordering : Rule :=
  ⟨[.int, .str], .bool, .relational, true⟩

/-- Equality compares two values of one base type. -/
def equality : Rule :=
  ⟨[.int, .str, .bool], .bool, .relational, true⟩

/-- Whether some accepted tag fits the operand. -/
def accepts (rule : Rule) (operand : Tag) : Bool :=
  rule.accepted.any fun tag => tag.accepts operand

/-- The operand restricted to the first accepted tag that fits it. -/
def narrow? (rule : Rule) (operand : Tag) : Option Tag :=
  (rule.accepted.find? fun tag => tag.accepts operand).map operand.narrow

/-- The first accepted tag that fits both operands. -/
def common? (rule : Rule) (left right : Tag) : Option Tag :=
  rule.accepted.find? fun tag => tag.accepts left && tag.accepts right

/-- The result with the mark of the rule's family. -/
def marked (rule : Rule) : Marked :=
  ⟨rule.result, rule.family.mark⟩

/-- The accepted tags as messages name them; `arith` goes without saying. -/
def describe (rule : Rule) : String :=
  " or ".intercalate ((rule.accepted.filter (· != .arith)).map Tag.name)

end Rule

/-- The rule of a unary operator. -/
def UnaryOp.rule : UnaryOp → Rule
  | .negate => .arithmetic
  | .not => .logical

/-- The rule of a binary operator. -/
def BinaryOp.rule : BinaryOp → Rule
  | .add | .subtract | .multiply | .divide | .modulo => .arithmetic
  | .and | .or => .logical
  | .less | .lessEq | .greater | .greaterEq => .ordering
  | .equal | .notEqual => .equality

/-- The rule of an operator. -/
def Operator.rule : Operator → Rule
  | .unary op => op.rule
  | .binary op => op.rule

end TagLang
