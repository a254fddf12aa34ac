import TagLang.Tree.Expectation
import TagLang.Tree.Precedence

/-!
# Drafts

A draft is a program that has been read up to some token: the items that are
complete, the blocks that are still open, and the stage that the current item
has reached.  Each token moves the draft one step on, or cannot go on from it.

* `Chain` is an expression of which some operands and operators are read.
* `Opener` is what an inner expression was opened for: a pair of parentheses, an
  argument list, or a part of a conditional.
* `Stage` is how far the current item is, `Stage.move` what a token does to it,
  and `Stage.expected` the tokens that it waits for.
* `Draft.read` moves a draft over one token, and `Draft.readAll` over a list.

An expression ends at the first token that cannot belong to it.  The alternative
of a conditional therefore takes every operator after it, and a conditional is
complete only when a token ends the expression around it.
-/

namespace TagLang

/-! ## Expressions in part -/

/-- An expression of which the last operand is not complete.  `done` holds the
operands before it, each with the operator after it, and `signs` the unary
operators before the operand itself.  Both list the latest first. -/
structure Chain where
  done : List (Expr × BinaryOp)
  signs : List (UnaryOp × Span)

namespace Chain

/-- Nothing is read yet. -/
def empty : Chain :=
  ⟨[], []⟩

/-- Whether nothing is read yet. -/
def isEmpty (chain : Chain) : Bool :=
  chain.done.isEmpty && chain.signs.isEmpty

/-- The last operand, made of the signs before it and what they apply to. -/
def operand (chain : Chain) (atom : Expr) : Expr :=
  chain.signs.foldl (fun e sign => e.apply sign.1 sign.2) atom

/-- The chain after a sign. -/
def sign (chain : Chain) (op : UnaryOp) (place : Span) : Chain :=
  { chain with signs := (op, place) :: chain.signs }

/-- The chain after its last operand and a binary operator. -/
def extend (chain : Chain) (atom : Expr) (op : BinaryOp) : Chain :=
  ⟨(chain.operand atom, op) :: chain.done, []⟩

/-- The operands and operators in reading order. -/
def flat (chain : Chain) (atom : Expr) : Flat :=
  chain.done.foldl (fun flat link => (link.1, (link.2, flat.1) :: flat.2))
    (chain.operand atom, [])

/-- The whole expression, ended after its last operand. -/
def close (chain : Chain) (atom : Expr) : Expr :=
  assemble (chain.flat atom)

end Chain

/-- What an inner expression was opened for.  A conditional remembers where it
starts, and an argument list the arguments so far, the latest first. -/
inductive Opener where
  | group
  | arguments (callee : Name) (given : List Expr)
  | condition (start : Nat)
  | consequent (start : Nat) (condition : Expr)
  | alternative (start : Nat) (condition consequent : Expr)

/-- An opener and the expression around it. -/
structure Pending where
  opener : Opener
  around : Chain

/-- Ends an expression after `atom`, whose last token ends at `stop`, and with it
every conditional of which it is the alternative.  What is left is the complete
expression and the openers around it. -/
def settle (stop : Nat) : List Pending → Chain → Expr → List Pending × Expr
  | ⟨.alternative start condition consequent, around⟩ :: pending, chain, atom =>
    settle stop pending around
      (.conditional condition consequent (chain.close atom) ⟨start, stop⟩)
  | pending, chain, atom => (pending, chain.close atom)

/-- What may follow a complete expression. -/
def following : List Pending → List Expectation
  | ⟨.alternative _ _ _, _⟩ :: pending => following pending
  | ⟨.group, _⟩ :: _ => [.token .rightParen]
  | ⟨.arguments _ _, _⟩ :: _ => [.token .comma, .token .rightParen]
  | ⟨.condition _, _⟩ :: _ => [.token .kwThen]
  | ⟨.consequent _ _, _⟩ :: _ => [.token .kwElse]
  | [] => [.token .semicolon]

/-! ## Items in part -/

/-- What the outermost expression belongs to. -/
inductive Goal where
  | statement
  | initializer (start : Nat) (name : Name) (ascription : Ascription)

/-- The item that a complete expression makes. -/
def Goal.finish (stop : Nat) (e : Expr) : Goal → Item
  | statement => .expr e
  | initializer start name ascription => .var ⟨name, ascription, some e, ⟨start, stop⟩⟩

/-- The start of a function declaration; the latest parameter comes first. -/
structure Header where
  start : Nat
  name : Name
  parameters : List Parameter

/-- The header with one more parameter. -/
def Header.add (header : Header) (name : Name) (ascription : Option Ascription) : Header :=
  { header with parameters := ⟨name, ascription⟩ :: header.parameters }

/-- What an ascription belongs to. -/
inductive Site where
  | ofVar (start : Nat) (name : Name)
  | ofParameter (header : Header) (name : Name)
  | ofResult (header : Header)

/-- How far an item is read. -/
inductive Stage where
  /-- Before the first token of an item. -/
  | item
  /-- After `var`. -/
  | varName (start : Nat)
  /-- After the name of a variable. -/
  | varColon (start : Nat) (name : Name)
  /-- After `fn`. -/
  | fnName (start : Nat)
  /-- After the name of a function. -/
  | fnOpen (start : Nat) (name : Name)
  /-- Before a parameter. -/
  | parameter (header : Header)
  /-- After the name of a parameter. -/
  | parameterName (header : Header) (name : Name)
  /-- After the list of parameters. -/
  | arrow (header : Header)
  /-- Before an ascription. -/
  | type (site : Site)
  /-- After a base type of an ascription. -/
  | typeMember (site : Site) (ascription : Ascription)
  /-- After the bar in an ascription. -/
  | typeBar (site : Site) (ascription : Ascription)
  /-- Before an operand. -/
  | operand (goal : Goal) (pending : List Pending) (chain : Chain)
  /-- After an operand; `callee` is that operand when it is a name, which can
  still turn out to be called. -/
  | operator (goal : Goal) (pending : List Pending) (chain : Chain) (atom : Expr)
      (callee : Option Name)

/-- What a token does to an item. -/
inductive Move where
  /-- The item goes on. -/
  | proceed (stage : Stage)
  /-- The item is complete. -/
  | finish (item : Item)
  /-- A block opens. -/
  | enter
  /-- The innermost block ends. -/
  | leave

namespace Stage

/-- The stage after a complete call. -/
def called (goal : Goal) (pending : List Pending) (chain : Chain) (callee : Name)
    (arguments : List Expr) (stop : Nat) : Stage :=
  operator goal pending chain (.call callee arguments ⟨callee.span.start, stop⟩) none

/-- A token where an operand has to start.  A closing parenthesis is possible
after the last argument of a call. -/
def moveOperand (goal : Goal) (pending : List Pending) (chain : Chain) (t : Located) :
    Option Stage :=
  match t.token, pending with
  | .int digits, _ => some (operator goal pending chain (.literal (.int digits) t.span) none)
  | .str value, _ => some (operator goal pending chain (.literal (.str value) t.span) none)
  | .bool value, _ => some (operator goal pending chain (.literal (.bool value) t.span) none)
  | .name text, _ =>
    some (operator goal pending chain (.var ⟨text, t.span⟩ t.span) (some ⟨text, t.span⟩))
  | .kwIf, _ => some (operand goal (⟨.condition t.span.start, chain⟩ :: pending) .empty)
  | .leftParen, _ => some (operand goal (⟨.group, chain⟩ :: pending) .empty)
  | .minus, _ => some (operand goal pending (chain.sign .negate t.span))
  | .not, _ => some (operand goal pending (chain.sign .not t.span))
  | .rightParen, ⟨.arguments callee given, around⟩ :: outer =>
    if chain.isEmpty then some (called goal outer around callee given.reverse t.span.stop)
    else none
  | _, _ => none

/-- A token that ends the expression `e`, given what that was opened for. -/
def moveEnd (goal : Goal) (pending : List Pending) (e : Expr) (t : Located) : Option Move :=
  match t.token, pending with
  | .rightParen, ⟨.group, around⟩ :: outer => some (.proceed (operator goal outer around e none))
  | .rightParen, ⟨.arguments callee given, around⟩ :: outer =>
    some (.proceed (called goal outer around callee (e :: given).reverse t.span.stop))
  | .comma, ⟨.arguments callee given, around⟩ :: outer =>
    some (.proceed (operand goal (⟨.arguments callee (e :: given), around⟩ :: outer) .empty))
  | .kwThen, ⟨.condition start, around⟩ :: outer =>
    some (.proceed (operand goal (⟨.consequent start e, around⟩ :: outer) .empty))
  | .kwElse, ⟨.consequent start condition, around⟩ :: outer =>
    some (.proceed (operand goal (⟨.alternative start condition e, around⟩ :: outer) .empty))
  | .semicolon, [] => some (.finish (goal.finish t.span.stop e))
  | _, _ => none

/-- A token after an operand.  `stop` is the end of the token before it. -/
def moveOperator (stop : Nat) (goal : Goal) (pending : List Pending) (chain : Chain)
    (atom : Expr) (callee : Option Name) (t : Located) : Option Move :=
  match t.token.binaryOp?, t.token, callee with
  | some op, _, _ => some (.proceed (operand goal pending (chain.extend atom op)))
  | none, .leftParen, some callee =>
    some (.proceed (operand goal (⟨.arguments callee [], chain⟩ :: pending) .empty))
  | none, _, _ =>
    let settled := settle stop pending chain atom
    moveEnd goal settled.1 settled.2 t

/-- A token after a complete ascription. -/
def moveAscribed (site : Site) (ascription : Ascription) (t : Located) : Option Move :=
  match site, t.token with
  | .ofVar start name, .assign =>
    some (.proceed (operand (.initializer start name ascription) [] .empty))
  | .ofVar start name, .semicolon =>
    some (.finish (.var ⟨name, ascription, none, ⟨start, t.span.stop⟩⟩))
  | .ofParameter header name, .comma =>
    some (.proceed (parameter (header.add name (some ascription))))
  | .ofParameter header name, .rightParen =>
    some (.proceed (arrow (header.add name (some ascription))))
  | .ofResult ⟨start, name, parameters⟩, .semicolon =>
    some (.finish (.fn ⟨name, parameters.reverse, ascription, ⟨start, t.span.stop⟩⟩))
  | _, _ => none

/-- What a token does at each stage.  `stop` is the end of the token before it. -/
def move (stop : Nat) (t : Located) : Stage → Option Move
  | item =>
    match t.token with
    | .kwVar => some (.proceed (varName t.span.start))
    | .kwFn => some (.proceed (fnName t.span.start))
    | .leftBrace => some .enter
    | .rightBrace => some .leave
    | _ => (moveOperand .statement [] .empty t).map .proceed
  | varName start =>
    match t.token with
    | .name text => some (.proceed (varColon start ⟨text, t.span⟩))
    | _ => none
  | varColon start name =>
    match t.token with
    | .colon => some (.proceed (type (.ofVar start name)))
    | _ => none
  | fnName start =>
    match t.token with
    | .name text => some (.proceed (fnOpen start ⟨text, t.span⟩))
    | _ => none
  | fnOpen start name =>
    match t.token with
    | .leftParen => some (.proceed (parameter ⟨start, name, []⟩))
    | _ => none
  | parameter header =>
    match t.token with
    | .name text => some (.proceed (parameterName header ⟨text, t.span⟩))
    | .rightParen => some (.proceed (arrow header))
    | _ => none
  | parameterName header name =>
    match t.token with
    | .colon => some (.proceed (type (.ofParameter header name)))
    | .comma => some (.proceed (parameter (header.add name none)))
    | .rightParen => some (.proceed (arrow (header.add name none)))
    | _ => none
  | arrow header =>
    match t.token with
    | .arrow => some (.proceed (type (.ofResult header)))
    | _ => none
  | type site =>
    match t.token with
    | .base base => some (.proceed (typeMember site ⟨[base], t.span⟩))
    | _ => none
  | typeMember site ascription =>
    match t.token with
    | .pipe => some (.proceed (typeBar site ascription))
    | _ => moveAscribed site ascription t
  | typeBar site ⟨members, span⟩ =>
    match t.token with
    | .base base => some (.proceed (typeMember site ⟨members ++ [base], ⟨span.start, t.span.stop⟩⟩))
    | _ => none
  | operand goal pending chain => (moveOperand goal pending chain t).map .proceed
  | operator goal pending chain atom callee => moveOperator stop goal pending chain atom callee t

/-! ## What a stage waits for -/

/-- The binary operators, in the order in which messages list them. -/
def operators : List Expectation :=
  [.star, .slash, .percent, .plus, .minus, .less, .lessEq, .greater, .greaterEq, .equal,
    .notEqual, .and, .or].map .token

/-- What an operand can start with. -/
def operandStarts : List Expectation :=
  [.token .minus, .token .not, .literal, .conditional, .identifier, .token .leftParen]

/-- What may follow an ascription. -/
def afterAscription : Site → List Expectation
  | .ofVar _ _ => [.token .assign, .token .semicolon]
  | .ofParameter _ _ => [.token .comma, .token .rightParen]
  | .ofResult _ => [.token .semicolon]

/-- What a stage waits for.  `nested` tells whether a block is open. -/
def expected (nested : Bool) : Stage → List Expectation
  | item =>
    [.variableDeclaration, .functionDeclaration, .block, .expression,
      if nested then .token .rightBrace else .endOfInput]
  | varName _ => [.identifier]
  | varColon _ _ => [.token .colon]
  | fnName _ => [.identifier]
  | fnOpen _ _ => [.token .leftParen]
  | parameter _ => [.identifier, .token .rightParen]
  | parameterName _ _ => [.token .colon, .token .comma, .token .rightParen]
  | arrow _ => [.token .arrow]
  | type _ => [.type]
  | typeMember site _ => .token .pipe :: afterAscription site
  | typeBar _ _ => []
  | operand _ pending chain =>
    match chain.isEmpty, pending with
    | false, _ => operandStarts
    | true, ⟨.arguments _ _, _⟩ :: _ => [.expression, .token .rightParen]
    | true, _ => [.expression]
  | operator _ pending _ _ callee =>
    (if callee.isSome then [.token .leftParen] else []) ++ operators ++ following pending

end Stage

/-! ## Programs in part -/

/-- A block whose end is not read: where it starts, and the items before it in
the block around it, the latest first. -/
structure OpenBlock where
  start : Nat
  before : List Item

/-- A program read in part.  `items` are the complete items of the innermost
block, the latest first, and `stop` is the end of the last token. -/
structure Draft where
  items : List Item
  blocks : List OpenBlock
  stage : Stage
  stop : Nat

namespace Draft

/-- Nothing is read yet. -/
def start : Draft :=
  ⟨[], [], .item, 0⟩

/-- The draft after one more token, or nothing when the token cannot go on. -/
def read (draft : Draft) (t : Located) : Option Draft :=
  match draft.stage.move draft.stop t, draft.blocks with
  | some (.proceed stage), blocks => some ⟨draft.items, blocks, stage, t.span.stop⟩
  | some (.finish item), blocks => some ⟨item :: draft.items, blocks, .item, t.span.stop⟩
  | some .enter, blocks => some ⟨[], ⟨t.span.start, draft.items⟩ :: blocks, .item, t.span.stop⟩
  | some .leave, ⟨start, before⟩ :: blocks =>
    let block := .block draft.items.reverse ⟨start, t.span.stop⟩
    some ⟨block :: before, blocks, .item, t.span.stop⟩
  | some .leave, [] => none
  | none, _ => none

/-- What the draft waits for. -/
def expected (draft : Draft) : List Expectation :=
  draft.stage.expected !draft.blocks.isEmpty

/-- Reads tokens up to the first that cannot go on. -/
def readAll (draft : Draft) : List Located → Except SyntaxError Draft
  | [] => .ok draft
  | t :: rest =>
    match draft.read t with
    | some draft => draft.readAll rest
    | none => .error ⟨some t.token, t.span, draft.expected⟩

end Draft

/-! ## Whole programs -/

/-- The span from the first token to the last.  Without tokens it is the end of
the source. -/
def spanOfTokens (length : Nat) (tokens : List Located) : Span :=
  match tokens.head?, tokens.getLast? with
  | some first, some last => ⟨first.span.start, last.span.stop⟩
  | _, _ => .point length

/-- The program that the tokens of a source of `length` bytes make. -/
def Program.ofTokens (length : Nat) (tokens : List Located) : Except SyntaxError Program :=
  match Draft.start.readAll tokens with
  | .error error => .error error
  | .ok draft =>
    match draft.stage, draft.blocks with
    | .item, [] => .ok ⟨draft.items.reverse, spanOfTokens length tokens⟩
    | _, _ => .error ⟨none, .point length, draft.expected⟩

end TagLang
