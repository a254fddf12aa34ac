/-!
# Diagnostic codes

Every diagnostic has a code.  The code fixes the level, the title that is used as
message when nothing more exact is known, and a longer explanation.
-/

namespace TagLang

/-- How serious a diagnostic is. -/
inductive Severity where
  | error
  | warning
  deriving DecidableEq, Repr

/-- The kinds of diagnostics. -/
inductive Code where
  | unrecognizedCharacter
  | syntaxError
  | undeclaredIdentifier
  | duplicateDeclaration
  | notCallable
  | functionUsedAsValue
  | arityMismatch
  | argumentMismatch
  | operandMismatch
  | branchMismatch
  | conditionNotBoolean
  | nestingTooDeep
  | internalError
  | initializerMismatch
  | unsupportedUnion
  | shadowedDeclaration
  deriving DecidableEq, Repr

namespace Code

/-- Every code, by number. -/
def all : List Code :=
  [unrecognizedCharacter, syntaxError, undeclaredIdentifier, duplicateDeclaration, notCallable,
    functionUsedAsValue, arityMismatch, argumentMismatch, operandMismatch, branchMismatch,
    conditionNotBoolean, nestingTooDeep, internalError, initializerMismatch, unsupportedUnion,
    shadowedDeclaration]

/-- The code as it is written. -/
def id : Code → String
  | unrecognizedCharacter => "E0000"
  | syntaxError => "E0100"
  | undeclaredIdentifier => "E0200"
  | duplicateDeclaration => "E0201"
  | notCallable => "E0202"
  | functionUsedAsValue => "E0203"
  | arityMismatch => "E0204"
  | argumentMismatch => "E0205"
  | operandMismatch => "E0206"
  | branchMismatch => "E0207"
  | conditionNotBoolean => "E0208"
  | nestingTooDeep => "E0209"
  | internalError => "E0210"
  | initializerMismatch => "E0211"
  | unsupportedUnion => "E0212"
  | shadowedDeclaration => "W0200"

/-- Shadowing is a warning, all else is an error. -/
def severity : Code → Severity
  | shadowedDeclaration => .warning
  | _ => .error

/-- The message of a diagnostic that has no message of its own. -/
def title : Code → String
  | unrecognizedCharacter => "Unrecognized character"
  | syntaxError => "Syntax error"
  | undeclaredIdentifier => "Undeclared identifier"
  | duplicateDeclaration => "Symbol is already declared in this scope"
  | notCallable => "Cannot call a non-function"
  | functionUsedAsValue => "Function used as a value"
  | arityMismatch => "Incorrect number of arguments in function call"
  | argumentMismatch => "Argument type mismatch"
  | operandMismatch => "Operand type mismatch"
  | branchMismatch => "Conditional branches have incompatible types"
  | conditionNotBoolean => "Condition is not a boolean"
  | nestingTooDeep => "Expression is nested too deeply"
  | internalError => "Internal checker error"
  | initializerMismatch => "Initializer type mismatch"
  | unsupportedUnion => "Unsupported union type"
  | shadowedDeclaration => "Declaration shadows an outer declaration"

/-- What the code means and what to do about it. -/
def explanation : Code → String
  | unrecognizedCharacter =>
    "The lexer encountered a character that is not part of the language. " ++
    "This can happen due to typos or trying to use unsupported symbols."
  | syntaxError =>
    "The arrangement of tokens does not match any grammar rule. " ++
    "Check for missing semicolons, mismatched brackets, or an `if` without `then`/`else`."
  | undeclaredIdentifier =>
    "The identifier is not declared in the current scope or any enclosing scope. " ++
    "Declare it with `var` or `fn` before using it."
  | duplicateDeclaration =>
    "Each identifier may be declared once per scope. " ++
    "Declaring the same name inside a nested `\x7b ... \x7d` block shadows the outer one instead."
  | notCallable =>
    "Only identifiers declared with `fn` can be called with `(...)`."
  | functionUsedAsValue =>
    "Functions are not first-class values. A function name must be followed by an argument list."
  | arityMismatch =>
    "The number of arguments does not match the number of parameters in the function's " ++
    "declaration. The call still has the declared return type, so the surrounding expression " ++
    "keeps being checked."
  | argumentMismatch =>
    "The argument's type is not compatible with the type annotated on the corresponding parameter."
  | operandMismatch =>
    "The operator does not accept an operand of this type. Arithmetic operators take `int`, " ++
    "logical operators take `bool`, comparisons take two operands of the same type."
  | branchMismatch =>
    "Both branches of an `if ... then ... else ...` expression must have a common type. " ++
    "Branches of different types are accepted only when the expression initializes a variable " ++
    "whose declared union type covers both, e.g. `var v: int|str = if c then 1 else \"x\";`."
  | conditionNotBoolean =>
    "The condition of an `if` expression must have type `bool`."
  | nestingTooDeep =>
    "The expression exceeds the configured nesting limit (`--max-depth`). " ++
    "The checker stops descending at the limit instead of exhausting the stack."
  | internalError =>
    "An unexpected error occurred within the checker's internal logic. This indicates a bug in " ++
    "the checker itself. Please report this issue with the source code that caused it."
  | initializerMismatch =>
    "The type of the initializer is not compatible with the variable's declared type."
  | unsupportedUnion =>
    "Only the two-member unions `int|str`, `int|bool` and `str|bool` exist. " ++
    "A union of all three base types cannot be represented; use `any` instead."
  | shadowedDeclaration =>
    "A declaration in a nested block hides a symbol with the same name from an enclosing scope. " ++
    "This is allowed, but uses of the name inside the block refer to the new declaration."

/-- The code written in the given way; the case of ASCII letters does not count. -/
def ofText? (text : String) : Option Code :=
  all.find? fun code => code.id.toList.map Char.toUpper == text.toList.map Char.toUpper

end Code

end TagLang
