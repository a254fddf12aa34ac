import TagLang.Token

/-!
# Syntax errors

What a reader of tokens was waiting for when it met a token that cannot go on,
and how the error says so.
-/

namespace TagLang

/-- Something that could have come next. -/
inductive Expectation where
  | token (token : Token)
  | variableDeclaration
  | functionDeclaration
  | block
  | expression
  | literal
  | conditional
  | identifier
  | type
  | endOfInput
  deriving DecidableEq, Repr

/-- How an expectation is named.  A token stands between doubled single quotes. -/
def Expectation.text : Expectation → String
  | token t => "''" ++ t.text ++ "''"
  | variableDeclaration => "variable declaration"
  | functionDeclaration => "function declaration"
  | block => "block"
  | expression => "expression"
  | literal => "literal"
  | conditional => "conditional"
  | identifier => "identifier"
  | type => "type"
  | endOfInput => "end of input"

/-- The first token that cannot go on, or the end of the input. -/
structure SyntaxError where
  found : Option Token
  span : Span
  expected : List Expectation
  deriving DecidableEq, Repr

namespace SyntaxError

/-- What was found, as the message names it. -/
def foundText (error : SyntaxError) : String :=
  match error.found with
  | none => "end of input"
  | some token => "`" ++ token.text ++ "`"

/-- What was expected, as the message names it. -/
def expectedText (error : SyntaxError) : String :=
  match error.expected with
  | [] => "something else"
  | expected => " or ".intercalate (expected.map Expectation.text)

end SyntaxError

end TagLang
