import TagLang.Finding
import TagLang.Operator.Rule
import TagLang.Scopes
import TagLang.Tag.Lattice

/-!
# Resolution of expressions

The tag of an expression, with the findings on the way.  Resolution always
answers: an expression with an error has the tag `undefined`, and `undefined`
passes upwards without further findings.

An expression may be resolved under an expectation, the tag that its surroundings
want.  Only the branches of a conditional look at it: they may have different
tags when the expectation covers both.

The nodes on a path are counted.  A node that lies `limit` levels deep is not
visited; the first such node of a tree is reported and the others are passed
over, which is what the flag `exceeded` is for.
-/

namespace TagLang

/-- What an expression is resolved against: the visible declarations, and how
deep a tree may be. -/
structure Env where
  scopes : Scopes
  limit : Nat

/-- The tag of one node, and what was found there. -/
structure Verdict where
  tag : Tag
  findings : List Finding
  deriving DecidableEq, Repr

/-- The answer of a resolution: the tag, whether the limit has been reported, and
the findings in the order in which they were made. -/
structure Outcome where
  tag : Tag
  exceeded : Bool
  findings : List Finding
  deriving DecidableEq, Repr

/-- The answer for a list of arguments: whether one of them is `undefined`, and
the rest as for an expression. -/
structure ArgumentsOutcome where
  anyUndefined : Bool
  exceeded : Bool
  findings : List Finding
  deriving DecidableEq, Repr

namespace Literal

/-- The tag of a literal. -/
def tag : Literal → Tag
  | int _ => .int
  | str _ => .str
  | bool _ => .bool

end Literal

/-! ## Single nodes -/

/-- The tag of a name that is used as a value. -/
def resolveName (scopes : Scopes) (name : Name) : Verdict :=
  match scopes.symbol? name.text with
  | some (.value kind) => ⟨kind, []⟩
  | some (.function _) => ⟨.undefined, [.functionAsValue name]⟩
  | none => ⟨.undefined, [.undeclared name]⟩

/-- The signature behind a name that is called. -/
def signatureOf? (scopes : Scopes) (callee : Name) : Option Signature :=
  (scopes.symbol? callee.text).bind Symbol.signature?

/-- Whether a name can be called with so many arguments.  A call with the wrong
number keeps its tag. -/
def checkCallee (scopes : Scopes) (callee : Name) (given : Nat) (span : Span) : List Finding :=
  match scopes.symbol? callee.text with
  | some (.function signature) =>
    if given = signature.parameters.count then []
    else [.arity callee.text signature.parameters.count given span]
  | some (.value kind) => [.notCallable callee kind]
  | none => [.undeclared callee]

/-- The tags that the parameters of a call want, as far as they are known. -/
def parameterTags (scopes : Scopes) (callee : Name) : List Tag :=
  ((signatureOf? scopes callee).bind (·.parameters.tags?)).getD []

/-- The tag of a call whose arguments are well typed. -/
def resultTag (scopes : Scopes) (callee : Name) : Tag :=
  ((signatureOf? scopes callee).map (·.result)).getD .undefined

/-- Whether an argument fits its parameter.  An `undefined` argument is not
reported again. -/
def checkArgument (callee : Name) (index : Nat) (expected : Option Tag) (found : Tag)
    (span : Span) : List Finding :=
  match expected with
  | none => []
  | some expected =>
    if found = .undefined ∨ expected.accepts found then []
    else [.argument callee.text index expected found span]

/-- The tag of a unary operation from the tag of its operand. -/
def resolveUnary (op : UnaryOp) (found : Tag) (operand whole : Span) : Verdict :=
  if found = .undefined then ⟨.undefined, []⟩
  else if op.rule.accepts found then ⟨op.rule.result, []⟩
  else ⟨.undefined, [.operand (.unary op) op.rule.describe found operand whole]⟩

/-- The tag of a binary operation from the tags of its operands.  At most one
operand is blamed, and the left one first. -/
def resolveBinary (op : BinaryOp) (left right : Tag) (leftSpan rightSpan whole : Span) :
    Verdict :=
  let rule := op.rule
  let blame (expected : String) (found : Tag) (place : Span) : Verdict :=
    ⟨.undefined, [.operand (.binary op) expected found place whole]⟩
  if left = .undefined ∨ right = .undefined then ⟨.undefined, []⟩
  else if !rule.accepts left then blame rule.describe left leftSpan
  else if !rule.accepts right then blame rule.describe right rightSpan
  else if rule.sameOperands && (rule.common? left right).isNone then
    blame (((rule.narrow? left).map Tag.name).getD rule.describe) right rightSpan
  else ⟨rule.result, []⟩

/-- Whether a condition may decide between two branches. -/
def decides (found : Tag) : Bool :=
  found ≠ .undefined && Tag.bool.accepts found

/-- A condition that is not a boolean is reported, unless it is `undefined`. -/
def checkCondition (found : Tag) (span : Span) : List Finding :=
  if Tag.bool.accepts found then [] else [.condition found span]

/-- The tag of a conditional from the tags of its branches.  One branch has to
cover the other, or the expectation both. -/
def resolveBranches (expected : Option Tag) (consequent alternative : Tag)
    (consequentSpan alternativeSpan : Span) : Verdict :=
  let mismatch : Verdict :=
    ⟨.undefined, [.branches consequent alternative consequentSpan alternativeSpan]⟩
  if consequent = .undefined ∨ alternative = .undefined then ⟨.undefined, []⟩
  else
    match consequent.join? alternative with
    | none => mismatch
    | some joined =>
      if joined = consequent ∨ joined = alternative then ⟨joined, []⟩
      else if expected.any (·.covers joined) then ⟨joined, []⟩
      else mismatch

/-- A node that lies too deep. -/
def tooDeep (limit : Nat) (exceeded : Bool) (span : Span) : Outcome :=
  ⟨.undefined, true, if exceeded then [] else [.tooDeep limit span]⟩

/-! ## Trees -/

mutual

/-- Resolves an expression that lies `depth` levels below the root of its tree. -/
def Expr.resolve (env : Env) (expected : Option Tag) (depth : Nat) (exceeded : Bool)
    (e : Expr) : Outcome :=
  if env.limit ≤ depth then tooDeep env.limit exceeded e.span
  else
    match e with
    | .literal value _ => ⟨value.tag, exceeded, []⟩
    | .var name _ =>
      let verdict := resolveName env.scopes name
      ⟨verdict.tag, exceeded, verdict.findings⟩
    | .call callee arguments span =>
      let tags := parameterTags env.scopes callee
      let inner := resolveArguments env callee 0 tags (depth + 1) exceeded arguments
      ⟨if inner.anyUndefined then .undefined else resultTag env.scopes callee, inner.exceeded,
        checkCallee env.scopes callee arguments.length span ++ inner.findings⟩
    | .unary op operand span =>
      let inner := operand.resolve env none (depth + 1) exceeded
      let verdict := resolveUnary op inner.tag operand.span span
      ⟨verdict.tag, inner.exceeded, inner.findings ++ verdict.findings⟩
    | .binary op left right span =>
      let first := left.resolve env none (depth + 1) exceeded
      let second := right.resolve env none (depth + 1) first.exceeded
      let verdict := resolveBinary op first.tag second.tag left.span right.span span
      ⟨verdict.tag, second.exceeded, first.findings ++ second.findings ++ verdict.findings⟩
    | .conditional condition consequent alternative _ =>
      let decision := condition.resolve env (some .bool) (depth + 1) exceeded
      let first := consequent.resolve env expected (depth + 1) decision.exceeded
      let second := alternative.resolve env expected (depth + 1) first.exceeded
      let verdict := if decides decision.tag then
          resolveBranches expected first.tag second.tag consequent.span alternative.span
        else ⟨.undefined, []⟩
      ⟨verdict.tag, second.exceeded,
        decision.findings ++ checkCondition decision.tag condition.span ++ first.findings ++
          second.findings ++ verdict.findings⟩

/-- Resolves the arguments of a call from number `index` on, each under the tag
of its parameter as far as `tags` goes. -/
def resolveArguments (env : Env) (callee : Name) (index : Nat) (tags : List Tag) (depth : Nat)
    (exceeded : Bool) : List Expr → ArgumentsOutcome
  | [] => ⟨false, exceeded, []⟩
  | argument :: rest =>
    let first := argument.resolve env tags.head? depth exceeded
    let findings := checkArgument callee index tags.head? first.tag argument.span
    let others := resolveArguments env callee (index + 1) tags.tail depth first.exceeded rest
    ⟨first.tag == .undefined || others.anyUndefined, others.exceeded,
      first.findings ++ findings ++ others.findings⟩

end

end TagLang
