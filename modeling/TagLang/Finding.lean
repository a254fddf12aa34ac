import TagLang.Diagnostic
import TagLang.Operator
import TagLang.Tag
import TagLang.Tree
import TagLang.Tree.Expectation
import TagLang.Token.Lexeme

/-!
# Findings

What the analysis of a program can find, as causes with their facts.  A finding
becomes a diagnostic through `Finding.diagnostic`, the one place where its words
are chosen.  Stray text and syntax errors have their diagnostics here too.
-/

namespace TagLang

/-- Something to report about a program. -/
inductive Finding where
  | undeclared (name : Name)
  | duplicate (name : Name) (previous : Span)
  | notCallable (name : Name) (found : Tag)
  | functionAsValue (name : Name)
  | arity (callee : String) (expected found : Nat) (span : Span)
  /-- The argument after `index` others does not fit. -/
  | argument (callee : String) (index : Nat) (expected found : Tag) (span : Span)
  /-- The operand at `operand` does not fit the operator of the expression `whole`. -/
  | operand (operator : Operator) (expected : String) (found : Tag) (operand whole : Span)
  | branches (consequent alternative : Tag) (consequentSpan alternativeSpan : Span)
  | condition (found : Tag) (span : Span)
  | tooDeep (limit : Nat) (span : Span)
  | initializer (name : String) (expected found : Tag) (span : Span)
  | unsupportedUnion (span : Span)
  | internal (message : String) (span : Option Span)
  /-- A declaration hides the one at `outer`. -/
  | shadowed (name : Name) (outer : Span)
  deriving DecidableEq, Repr

namespace Finding

/-- The code of a finding. -/
def code : Finding → Code
  | undeclared _ => .undeclaredIdentifier
  | duplicate _ _ => .duplicateDeclaration
  | notCallable _ _ => .notCallable
  | functionAsValue _ => .functionUsedAsValue
  | arity _ _ _ _ => .arityMismatch
  | argument _ _ _ _ _ => .argumentMismatch
  | operand _ _ _ _ _ => .operandMismatch
  | branches _ _ _ _ => .branchMismatch
  | condition _ _ => .conditionNotBoolean
  | tooDeep _ _ => .nestingTooDeep
  | initializer _ _ _ _ => .initializerMismatch
  | unsupportedUnion _ => .unsupportedUnion
  | internal _ _ => .internalError
  | shadowed _ _ => .shadowedDeclaration

/-- The message of a finding; most have the title of their code. -/
def message : Finding → String
  | argument callee index _ _ _ => s!"Argument {index + 1} of '{callee}' has the wrong type"
  | operand operator _ found _ _ =>
    s!"Operator `{operator.symbol}` cannot be applied to `{found.name}`"
  | initializer name _ found _ =>
    s!"Cannot initialize '{name}' with a value of type `{found.name}`"
  | internal message _ => message
  | finding => finding.code.title

/-- The label at the place of a finding. -/
def primary : Finding → Label
  | undeclared name => ⟨name.span, s!"Cannot find '{name.text}' in this scope"⟩
  | duplicate name _ => ⟨name.span, s!"'{name.text}' is declared again here"⟩
  | notCallable name found =>
    ⟨name.span, s!"'{name.text}' has type `{found.name}` and cannot be called"⟩
  | functionAsValue name => ⟨name.span, s!"'{name.text}' is a function; call it with `(...)`"⟩
  | arity callee expected found span =>
    ⟨span, s!"'{callee}' expects {expected} argument(s), but {found} were provided"⟩
  | argument _ _ expected found span =>
    ⟨span, s!"Expected type `{expected.name}`, but found type `{found.name}`"⟩
  | operand _ expected found place _ =>
    ⟨place, s!"Expected `{expected}`, but found `{found.name}`"⟩
  | branches _ alternative _ place => ⟨place, s!"this branch has type `{alternative.name}`"⟩
  | condition found span => ⟨span, s!"Expected `bool`, but found `{found.name}`"⟩
  | tooDeep limit span => ⟨span, s!"nesting exceeds the limit of {limit}"⟩
  | initializer _ expected found span =>
    ⟨span, s!"Expected type `{expected.name}`, but found type `{found.name}`"⟩
  | unsupportedUnion span => ⟨span, "no type tag covers all of these members"⟩
  | internal message span => ⟨span.getD ⟨0, 0⟩, message⟩
  | shadowed name _ => ⟨name.span, s!"'{name.text}' shadows an outer declaration"⟩

/-- The labels at other places that a finding refers to. -/
def secondary : Finding → List Label
  | duplicate _ previous => [⟨previous, "previous declaration is here"⟩]
  | operand operator _ _ _ whole => [⟨whole, s!"in this `{operator.symbol}` expression"⟩]
  | branches consequent _ place _ => [⟨place, s!"this branch has type `{consequent.name}`"⟩]
  | shadowed _ outer => [⟨outer, "outer declaration is here"⟩]
  | _ => []

/-- The advice that a finding comes with. -/
def notes : Finding → List String
  | branches _ _ _ _ => ["declare the target variable with a union type to accept both"]
  | _ => []

/-- The diagnostic of a finding. -/
def diagnostic (finding : Finding) : Diagnostic :=
  ⟨finding.code, finding.message, finding.primary, finding.secondary, finding.notes⟩

/-- The diagnostic of a finding whose facts can be written down: the number of an
argument, counted from one, has to be a machine word. -/
def diagnostic? : Finding → Except BuildError Diagnostic
  | argument callee index expected found span =>
    if index + 1 < UInt64.size then .ok (argument callee index expected found span).diagnostic
    else .error .positionOverflow
  | finding => .ok finding.diagnostic

end Finding

/-- The diagnostic of stray text names its first character. -/
def Stray.diagnostic (stray : Stray) : Diagnostic :=
  .ofCode .unrecognizedCharacter
    ⟨stray.span, "'" ++ stray.first.toString ++ "' is not part of the language"⟩

/-- The diagnostic of a syntax error tells what was found and what was expected. -/
def SyntaxError.diagnostic (error : SyntaxError) : Diagnostic :=
  (Diagnostic.ofCode .syntaxError
      ⟨error.span, s!"Expected {error.expectedText}, but found {error.foundText}"⟩).withMessage
    s!"Unexpected {error.foundText}"

end TagLang
