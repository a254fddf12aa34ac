import TagLang.Token.Writer
import TagLang.Tree

/-!
# Writing programs

The tokens of a tree, and its source text.  Parentheses are put around an operand
only where leaving them out would change the tree: around a binary operation that
binds less tightly than its surroundings, around a right operand of the same
level, and around a left operand that ends in the alternative of a conditional,
which would take the operator after it.
-/

namespace TagLang

/-- The token of a binary operator. -/
def BinaryOp.token : BinaryOp → Token
  | .add => .plus
  | .subtract => .minus
  | .multiply => .star
  | .divide => .slash
  | .modulo => .percent
  | .and => .and
  | .or => .or
  | .less => .less
  | .lessEq => .lessEq
  | .greater => .greater
  | .greaterEq => .greaterEq
  | .equal => .equal
  | .notEqual => .notEqual

/-- The token of a unary operator. -/
def UnaryOp.token : UnaryOp → Token
  | .negate => .minus
  | .not => .not

/-- The token of a literal. -/
def Literal.token : Literal → Token
  | .int digits => .int digits
  | .str value => .str value
  | .bool value => .bool value

/-- Tokens between parentheses, if they are needed. -/
def parenthesize (needed : Bool) (tokens : List Token) : List Token :=
  if needed then .leftParen :: tokens ++ [.rightParen] else tokens

/-- Lists of tokens with a comma between them. -/
def commaSeparated : List (List Token) → List Token
  | [] => []
  | [tokens] => tokens
  | tokens :: rest => tokens ++ .comma :: commaSeparated rest

namespace Expr

/-- How tightly the outermost operator binds; all that is not a binary operation
binds tightest. -/
def rank : Expr → Nat
  | binary op _ _ _ => op.level.rank
  | _ => Level.loosening.length

/-- Whether a right operand of `op` needs parentheses. -/
def rightNeeds (op : BinaryOp) (right : Expr) : Bool :=
  right.rank ≤ op.level.rank

/-- Whether the operand of a sign needs parentheses. -/
def signNeeds (operand : Expr) : Bool :=
  operand.rank < Level.loosening.length

/-- Whether the text of an expression ends in the alternative of a conditional
that is not closed by a parenthesis. -/
def endsOpen : Expr → Bool
  | conditional _ _ _ _ => true
  | unary _ operand _ => !operand.signNeeds && operand.endsOpen
  | binary op _ right _ => !right.rightNeeds op && right.endsOpen
  | _ => false

/-- Whether a left operand of `op` needs parentheses. -/
def leftNeeds (op : BinaryOp) (left : Expr) : Bool :=
  left.rank < op.level.rank || left.endsOpen

mutual

/-- The tokens of an expression. -/
def tokens : Expr → List Token
  | literal value _ => [value.token]
  | var name _ => [.name name.text]
  | call callee arguments _ =>
    .name callee.text :: .leftParen :: commaSeparated (tokensOfEach arguments) ++ [.rightParen]
  | unary op operand _ => op.token :: parenthesize operand.signNeeds operand.tokens
  | binary op left right _ =>
    parenthesize (left.leftNeeds op) left.tokens ++ op.token ::
      parenthesize (right.rightNeeds op) right.tokens
  | conditional condition consequent alternative _ =>
    .kwIf :: condition.tokens ++ .kwThen :: consequent.tokens ++ .kwElse :: alternative.tokens

/-- The tokens of each expression of a list. -/
def tokensOfEach : List Expr → List (List Token)
  | [] => []
  | e :: rest => e.tokens :: tokensOfEach rest

end

end Expr

/-- The tokens of base types with a bar between them. -/
def barSeparated : List Base → List Token
  | [] => []
  | [base] => [.base base]
  | base :: rest => .base base :: .pipe :: barSeparated rest

/-- The tokens of an ascription. -/
def Ascription.tokens (ascription : Ascription) : List Token :=
  barSeparated ascription.members

/-- The tokens of a parameter. -/
def Parameter.tokens (parameter : Parameter) : List Token :=
  .name parameter.name.text ::
    match parameter.ascription with
    | none => []
    | some ascription => .colon :: ascription.tokens

/-- The tokens of the declaration of a variable. -/
def VarDecl.tokens (declaration : VarDecl) : List Token :=
  .kwVar :: .name declaration.name.text :: .colon :: declaration.ascription.tokens ++
    (match declaration.initializer with
    | none => []
    | some e => .assign :: e.tokens) ++ [.semicolon]

/-- The tokens of the declaration of a function. -/
def FnDecl.tokens (declaration : FnDecl) : List Token :=
  .kwFn :: .name declaration.name.text :: .leftParen ::
    commaSeparated (declaration.parameters.map Parameter.tokens) ++
    .rightParen :: .arrow :: declaration.result.tokens ++ [.semicolon]

mutual

/-- The tokens of an item. -/
def Item.tokens : Item → List Token
  | .var declaration => declaration.tokens
  | .fn declaration => declaration.tokens
  | .block items _ => .leftBrace :: tokensOfItems items ++ [.rightBrace]
  | .expr e => e.tokens ++ [.semicolon]

/-- The tokens of items, one after the other. -/
def tokensOfItems : List Item → List Token
  | [] => []
  | item :: rest => item.tokens ++ tokensOfItems rest

end

/-- The tokens of a program. -/
def Program.tokens (program : Program) : List Token :=
  tokensOfItems program.items

/-- The source text of a program. -/
def Program.render (program : Program) : String :=
  String.ofList (writeTokens program.tokens)

end TagLang
