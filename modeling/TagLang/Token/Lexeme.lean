import TagLang.Token

/-!
# Lexemes

A source text is cut into lexemes, one after the other, each as long as it can
be.  A lexeme is a token, or text that is skipped, or text that is not part of
the language.  Nothing is left over: the lexemes of a text, put together, are
the text.

* `Cut.ofText` looks at the head of a text and says what stands there and how far
  it reaches.
* `Lexeme.scan` repeats this to the end of the text.
* `tokens` and `strays` are the two parts of the answer that later stages use.

## Strings and block comments

A string may hold any character but a bare quote or backslash, and a backslash
takes the next character with it, unless that is a line feed.  In a block comment
a star takes the next character with it, unless that is a slash.  A string or
comment whose end is not found is no token: the text up to where the search
stopped is stray, and reading goes on from there.
-/

namespace TagLang

/-! ## Character classes -/

/-- Skipped between tokens. -/
def isBlank (c : Char) : Bool :=
  c = ' ' || c = '\t' || c = '\r' || c = '\n' || c = '\x0c'

/-- The decimal digits. -/
def isDigit (c : Char) : Bool :=
  '0' ≤ c && c ≤ '9'

/-- The letters, and the underscore, that start a word. -/
def isWordStart (c : Char) : Bool :=
  'a' ≤ c && c ≤ 'z' || 'A' ≤ c && c ≤ 'Z' || c = '_'

/-- The characters that continue a word. -/
def isWordPart (c : Char) : Bool :=
  isWordStart c || isDigit c

/-- The number of bytes that a text takes in UTF-8. -/
def byteLength (text : List Char) : Nat :=
  text.foldr (fun c bytes => c.utf8Size + bytes) 0

/-! ## Delimited forms -/

/-- How far a delimited form reaches: whether its end was found, and how many
characters it takes, the end included. -/
structure Reach where
  closed : Bool
  length : Nat
  deriving DecidableEq, Repr

/-- The reach of a form whose first `n` characters come before `reach`. -/
def Reach.after (n : Nat) (reach : Reach) : Reach :=
  { reach with length := n + reach.length }

/-- The reach of a string, from the character after its opening quote. -/
def stringReach : List Char → Reach
  | [] => ⟨false, 0⟩
  | '"' :: _ => ⟨true, 1⟩
  | ['\\'] => ⟨false, 0⟩
  | '\\' :: '\n' :: _ => ⟨false, 0⟩
  | '\\' :: _ :: rest => (stringReach rest).after 2
  | _ :: rest => (stringReach rest).after 1

/-- The reach of a block comment, from the character after its opening. -/
def commentReach : List Char → Reach
  | [] => ⟨false, 0⟩
  | ['*'] => ⟨false, 0⟩
  | '*' :: '/' :: _ => ⟨true, 2⟩
  | '*' :: _ :: rest => (commentReach rest).after 2
  | _ :: rest => (commentReach rest).after 1

/-- What a backslash and the character after it stand for.  An escape that is not
known stands for itself. -/
def escaped : Char → List Char
  | 'n' => ['\n']
  | 't' => ['\t']
  | 'r' => ['\r']
  | '\\' => ['\\']
  | '"' => ['"']
  | c => ['\\', c]

/-- Replaces the escapes in the text of a string. -/
def unescape : List Char → List Char
  | [] => []
  | '\\' :: c :: rest => escaped c ++ unescape rest
  | c :: rest => c :: unescape rest

/-! ## The head of a text -/

/-- What a lexeme is. -/
inductive Piece where
  | skipped
  | token (token : Token)
  | stray
  deriving DecidableEq, Repr

/-- What stands at the head of a text, and how many characters belong to it after
the first one. -/
structure Cut where
  piece : Piece
  more : Nat
  deriving DecidableEq, Repr

/-- The operator or mark that starts with `c` when `next` follows, and how many
characters it takes after `c`. -/
def symbolAt (c : Char) (next : Option Char) : Option (Token × Nat) :=
  match c, next with
  | '=', some '=' => some (.equal, 1)
  | '!', some '=' => some (.notEqual, 1)
  | '<', some '=' => some (.lessEq, 1)
  | '>', some '=' => some (.greaterEq, 1)
  | '&', some '&' => some (.and, 1)
  | '|', some '|' => some (.or, 1)
  | '-', some '>' => some (.arrow, 1)
  | '+', _ => some (.plus, 0)
  | '-', _ => some (.minus, 0)
  | '*', _ => some (.star, 0)
  | '%', _ => some (.percent, 0)
  | '=', _ => some (.assign, 0)
  | '<', _ => some (.less, 0)
  | '>', _ => some (.greater, 0)
  | '!', _ => some (.not, 0)
  | ':', _ => some (.colon, 0)
  | '|', _ => some (.pipe, 0)
  | '(', _ => some (.leftParen, 0)
  | ')', _ => some (.rightParen, 0)
  | '\x7b', _ => some (.leftBrace, 0)
  | '\x7d', _ => some (.rightBrace, 0)
  | ';', _ => some (.semicolon, 0)
  | ',', _ => some (.comma, 0)
  | _, _ => none

namespace Cut

/-- A string whose opening quote has been read. -/
def ofString (rest : List Char) : Cut :=
  let reach := stringReach rest
  let body := rest.take (reach.length - 1)
  ⟨if reach.closed then .token (.str (String.ofList (unescape body))) else .stray, reach.length⟩

/-- A comment or a division sign, whose slash has been read. -/
def ofSlash : List Char → Cut
  | '/' :: line => ⟨.skipped, 1 + (line.takeWhile (· ≠ '\n')).length⟩
  | '*' :: body =>
    let reach := commentReach body
    ⟨if reach.closed then .skipped else .stray, 1 + reach.length⟩
  | _ => ⟨.token .slash, 0⟩

/-- The head of the text `c :: rest`. -/
def ofText (c : Char) (rest : List Char) : Cut :=
  if isBlank c then ⟨.skipped, (rest.takeWhile isBlank).length⟩
  else if isDigit c then
    let digits := rest.takeWhile isDigit
    ⟨.token (.int (String.ofList (c :: digits))), digits.length⟩
  else if isWordStart c then
    let parts := rest.takeWhile isWordPart
    ⟨.token (.ofWord (String.ofList (c :: parts))), parts.length⟩
  else if c = '"' then ofString rest
  else if c = '/' then ofSlash rest
  else
    match symbolAt c rest.head? with
    | some (symbol, more) => ⟨.token symbol, more⟩
    | none => ⟨.stray, 0⟩

end Cut

/-! ## The whole text -/

/-- A piece with its text and its place. -/
structure Lexeme where
  piece : Piece
  text : List Char
  span : Span
  deriving DecidableEq, Repr

namespace Lexeme

/-- The lexemes of a text that starts at byte `start`. -/
def scan (start : Nat) : List Char → List Lexeme
  | [] => []
  | c :: rest =>
    let cut := Cut.ofText c rest
    let text := c :: rest.take cut.more
    let stop := start + byteLength text
    ⟨cut.piece, text, ⟨start, stop⟩⟩ :: scan stop (rest.drop cut.more)
termination_by text => text.length
decreasing_by simp only [List.length_drop, List.length_cons]; omega

/-- The token that a lexeme holds. -/
def token? (lexeme : Lexeme) : Option Located :=
  match lexeme.piece with
  | .token token => some ⟨token, lexeme.span⟩
  | _ => none

end Lexeme

/-- A stretch of text that is not part of the language, and its first character. -/
structure Stray where
  first : Char
  span : Span
  deriving DecidableEq, Repr

/-- The stretch that a lexeme reports. -/
def Lexeme.stray? (lexeme : Lexeme) : Option Stray :=
  match lexeme.piece, lexeme.text with
  | .stray, first :: _ => some ⟨first, lexeme.span⟩
  | _, _ => none

/-- The lexemes of a source. -/
def lexemes (source : String) : List Lexeme :=
  Lexeme.scan 0 source.toList

/-- The tokens of a source, in order. -/
def tokens (source : String) : List Located :=
  (lexemes source).filterMap Lexeme.token?

/-- What is not part of the language, in order. -/
def strays (source : String) : List Stray :=
  (lexemes source).filterMap Lexeme.stray?

end TagLang
