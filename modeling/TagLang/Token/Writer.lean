import TagLang.Token.Lexeme

/-!
# Writing tokens

The source text of a token, and of a list of tokens with a space between them.
In a string only the quote and the backslash are escaped; every other character,
line feeds included, stands for itself.
-/

namespace TagLang

/-- Escapes the quotes and backslashes of a text. -/
def escape : List Char → List Char
  | [] => []
  | c :: rest => if c = '\\' ∨ c = '"' then '\\' :: c :: escape rest else c :: escape rest

/-- The source text of a token. -/
def Token.written : Token → List Char
  | str value => '"' :: escape value.toList ++ ['"']
  | token => token.text.toList

/-- The source text of a list of tokens. -/
def writeTokens : List Token → List Char
  | [] => []
  | [token] => token.written
  | token :: rest => token.written ++ ' ' :: writeTokens rest

end TagLang
