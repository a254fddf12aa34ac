import TagLang.Base
import TagLang.Operator
import TagLang.Span
import TagLang.Text.Quoted

/-!
# Tokens

The words of the language.  Integers keep their digits, strings hold their text
after escapes, and the two spellings of a logical operator are one token.

`text` is how a token appears in messages.  `ofWord` tells keywords from names,
and `binaryOp?` reads a token as an operator.
-/

namespace TagLang

/-- A word of the language. -/
inductive Token where
  | kwVar
  | kwFn
  | kwIf
  | kwThen
  | kwElse
  | base (type : Base)
  | bool (value : Bool)
  | int (digits : String)
  | str (value : String)
  | name (text : String)
  | plus
  | minus
  | star
  | slash
  | percent
  | assign
  | equal
  | notEqual
  | less
  | greater
  | lessEq
  | greaterEq
  | and
  | or
  | not
  | colon
  | arrow
  | pipe
  | leftParen
  | rightParen
  | leftBrace
  | rightBrace
  | semicolon
  | comma
  deriving DecidableEq, Repr

/-- A token with the place where it stands. -/
structure Located where
  token : Token
  span : Span
  deriving DecidableEq, Repr

namespace Token

/-- How a token appears in messages. -/
def text : Token → String
  | kwVar => "var"
  | kwFn => "fn"
  | kwIf => "if"
  | kwThen => "then"
  | kwElse => "else"
  | base type => type.name
  | bool true => "true"
  | bool false => "false"
  | int digits => digits
  | str value => Text.quoted value
  | name text => text
  | plus => "+"
  | minus => "-"
  | star => "*"
  | slash => "/"
  | percent => "%"
  | assign => "="
  | equal => "=="
  | notEqual => "!="
  | less => "<"
  | greater => ">"
  | lessEq => "<="
  | greaterEq => ">="
  | and => "&&"
  | or => "||"
  | not => "!"
  | colon => ":"
  | arrow => "->"
  | pipe => "|"
  | leftParen => "("
  | rightParen => ")"
  | leftBrace => "\x7b"
  | rightBrace => "\x7d"
  | semicolon => ";"
  | comma => ","

/-- The words that are not names, with what they stand for. -/
def reserved : List (String × Token) :=
  [("var", kwVar), ("fn", kwFn), ("if", kwIf), ("then", kwThen), ("else", kwElse),
    ("int", base .int), ("str", base .str), ("bool", base .bool), ("any", base .any),
    ("true", bool true), ("false", bool false), ("and", and), ("or", or), ("not", not)]

/-- The token of a word: a reserved one, or a name. -/
def ofWord (word : String) : Token :=
  (reserved.lookup word).getD (name word)

/-- The binary operator that a token stands for. -/
def binaryOp? : Token → Option BinaryOp
  | star => some .multiply
  | slash => some .divide
  | percent => some .modulo
  | plus => some .add
  | minus => some .subtract
  | less => some .less
  | lessEq => some .lessEq
  | greater => some .greater
  | greaterEq => some .greaterEq
  | equal => some .equal
  | notEqual => some .notEqual
  | and => some .and
  | or => some .or
  | _ => none

end Token

end TagLang
