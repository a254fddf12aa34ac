import TagLang.Tree.Printer

/-!
# The grammar

Which tokens make a program, and which tree they make.  The relations of this module
are the productions of the grammar, with the spans that the nodes of the tree get.
`Reads far rank ts rest e` says that the tokens `ts`, with `rest` after them, are an
expression `e` of a rank.

The ranks `0` to `5` are those of the binary operators, `Level.rank`.  Rank `6` is an
atom with signs before it, and rank `7` an atom.

A conditional is an atom, and its alternative is a whole expression.  So
`if a then b else c + d` can be read in two ways.  The parameter `far` says which
alternatives are allowed, given the tokens of the alternative and those after it:

* `Anywhere` allows all of them.  This is the context-free grammar.
* `Farthest` allows only alternatives that extend as far to the right as possible.
* `AtEnd` allows only alternatives before a token that no expression goes on with.

The last two turn out to agree on programs; `Proofs.Parsing` shows it.
-/

namespace TagLang

/-! ## Expressions -/

/-- The end of the last of some tokens. -/
def stopOf (ts : List Located) : Nat :=
  (ts.getLast?.map (·.span.stop)).getD 0

mutual

/-- The productions of expressions. -/
inductive Reads (far : List Located → List Located → Prop) :
    Nat → List Located → List Located → Expr → Prop where
  | literal {t : Located} {rest : List Located} {value : Literal} :
      t.token = value.token →
      Reads far 7 [t] rest (.literal value t.span)
  | var {t : Located} {rest : List Located} {text : String} :
      t.token = .name text →
      Reads far 7 [t] rest (.var ⟨text, t.span⟩ t.span)
  | call {t open_ close : Located} {us rest : List Located} {text : String}
      {arguments : List Expr} :
      t.token = .name text → open_.token = .leftParen →
      ReadsArguments far us (close :: rest) arguments → close.token = .rightParen →
      Reads far 7 (t :: open_ :: us ++ [close]) rest
        (.call ⟨text, t.span⟩ arguments ⟨t.span.start, close.span.stop⟩)
  | group {open_ close : Located} {us rest : List Located} {e : Expr} :
      open_.token = .leftParen → Reads far 0 us (close :: rest) e →
      close.token = .rightParen →
      Reads far 7 (open_ :: us ++ [close]) rest e
  | conditional {if_ then_ else_ : Located} {cs bs as rest : List Located}
      {condition consequent alternative : Expr} :
      if_.token = .kwIf → Reads far 0 cs (then_ :: (bs ++ else_ :: (as ++ rest))) condition →
      then_.token = .kwThen → Reads far 0 bs (else_ :: (as ++ rest)) consequent →
      else_.token = .kwElse → Reads far 0 as rest alternative → far as rest →
      Reads far 7 (if_ :: cs ++ then_ :: (bs ++ else_ :: as)) rest
        (.conditional condition consequent alternative ⟨if_.span.start, stopOf as⟩)
  | sign {s : Located} {ts rest : List Located} {op : UnaryOp} {operand : Expr} :
      s.token = op.token → Reads far 6 ts rest operand →
      Reads far 6 (s :: ts) rest (.unary op operand (s.span.hull operand.span))
  | binary {o : Located} {ls rs rest : List Located} {op : BinaryOp} {left right : Expr} :
      Reads far op.level.rank ls (o :: (rs ++ rest)) left → o.token = op.token →
      Reads far (op.level.rank + 1) rs rest right →
      Reads far op.level.rank (ls ++ o :: rs) rest
        (.binary op left right (left.span.hull right.span))
  | tighter {rank : Nat} {ts rest : List Located} {e : Expr} :
      Reads far (rank + 1) ts rest e → Reads far rank ts rest e

/-- The productions of argument lists: expressions with commas between them, and
maybe one after the last. -/
inductive ReadsArguments (far : List Located → List Located → Prop) :
    List Located → List Located → List Expr → Prop where
  | none {rest : List Located} : ReadsArguments far [] rest []
  | last {ts rest : List Located} {e : Expr} :
      Reads far 0 ts rest e → ReadsArguments far ts rest [e]
  | more {comma : Located} {ts us rest : List Located} {e : Expr} {others : List Expr} :
      Reads far 0 ts (comma :: (us ++ rest)) e → comma.token = .comma →
      ReadsArguments far us rest others →
      ReadsArguments far (ts ++ comma :: us) rest (e :: others)

end

/-- The alternative of a conditional may end anywhere. -/
def Anywhere (_ _ : List Located) : Prop :=
  True

/-- The alternative `branch` of a conditional extends as far to the right as
possible: no longer part of the tokens from its start on is an expression. -/
def Farthest (branch rest : List Located) : Prop :=
  ∀ longer shorter e, longer ++ shorter = branch ++ rest →
    Reads Anywhere 0 longer shorter e → longer.length ≤ branch.length

/-- A token that comes after an expression and does not go on with it. -/
def Token.endsExpr : Token → Bool
  | semicolon | comma | rightParen | kwThen | kwElse => true
  | _ => false

/-- The tokens start with one that ends an expression. -/
def Ended (rest : List Located) : Prop :=
  ∃ next after, rest = next :: after ∧ next.token.endsExpr = true

/-- The alternative of a conditional stands before a token that ends it. -/
def AtEnd (_ rest : List Located) : Prop :=
  Ended rest

/-! ## Declarations -/

/-- The productions of type ascriptions: base types with bars between them. -/
inductive ReadsAscription : List Located → Ascription → Prop where
  | base {t : Located} {base : Base} :
      t.token = .base base → ReadsAscription [t] ⟨[base], t.span⟩
  | bar {ts : List Located} {ascription : Ascription} {bar t : Located} {base : Base} :
      ReadsAscription ts ascription → bar.token = .pipe → t.token = .base base →
      ReadsAscription (ts ++ [bar, t])
        ⟨ascription.members ++ [base], ⟨ascription.span.start, t.span.stop⟩⟩

/-- The productions of parameters. -/
inductive ReadsParameter : List Located → Parameter → Prop where
  | bare {t : Located} {text : String} :
      t.token = .name text → ReadsParameter [t] ⟨⟨text, t.span⟩, none⟩
  | ascribed {t colon : Located} {text : String} {ts : List Located} {ascription : Ascription} :
      t.token = .name text → colon.token = .colon → ReadsAscription ts ascription →
      ReadsParameter (t :: colon :: ts) ⟨⟨text, t.span⟩, some ascription⟩

/-- The productions of parameter lists, with commas as in argument lists. -/
inductive ReadsParameters : List Located → List Parameter → Prop where
  | none : ReadsParameters [] []
  | last {ts : List Located} {parameter : Parameter} :
      ReadsParameter ts parameter → ReadsParameters ts [parameter]
  | more {comma : Located} {ts us : List Located} {parameter : Parameter}
      {others : List Parameter} :
      ReadsParameter ts parameter → comma.token = .comma → ReadsParameters us others →
      ReadsParameters (ts ++ comma :: us) (parameter :: others)

/-- The productions of initializers, which may be left out.  `rest` starts with the
semicolon. -/
inductive ReadsInitializer (far : List Located → List Located → Prop) :
    List Located → List Located → Option Expr → Prop where
  | absent {rest : List Located} : ReadsInitializer far [] rest none
  | present {assign : Located} {ts rest : List Located} {e : Expr} :
      assign.token = .assign → Reads far 0 ts rest e →
      ReadsInitializer far (assign :: ts) rest (some e)

/-! ## Items -/

mutual

/-- The productions of items. -/
inductive ReadsItem (far : List Located → List Located → Prop) :
    List Located → List Located → Item → Prop where
  | var {var_ t colon semicolon : Located} {text : String} {ts us rest : List Located}
      {ascription : Ascription} {initializer : Option Expr} :
      var_.token = .kwVar → t.token = .name text → colon.token = .colon →
      ReadsAscription ts ascription →
      ReadsInitializer far us (semicolon :: rest) initializer → semicolon.token = .semicolon →
      ReadsItem far (var_ :: t :: colon :: (ts ++ us ++ [semicolon])) rest
        (.var ⟨⟨text, t.span⟩, ascription, initializer, ⟨var_.span.start, semicolon.span.stop⟩⟩)
  | fn {fn_ t open_ close arrow semicolon : Located} {text : String}
      {ps ts rest : List Located} {parameters : List Parameter} {result : Ascription} :
      fn_.token = .kwFn → t.token = .name text → open_.token = .leftParen →
      ReadsParameters ps parameters → close.token = .rightParen → arrow.token = .arrow →
      ReadsAscription ts result → semicolon.token = .semicolon →
      ReadsItem far (fn_ :: t :: open_ :: (ps ++ close :: arrow :: (ts ++ [semicolon]))) rest
        (.fn ⟨⟨text, t.span⟩, parameters, result, ⟨fn_.span.start, semicolon.span.stop⟩⟩)
  | block {open_ close : Located} {ts rest : List Located} {items : List Item} :
      open_.token = .leftBrace → ReadsItems far ts (close :: rest) items →
      close.token = .rightBrace →
      ReadsItem far (open_ :: ts ++ [close]) rest
        (.block items ⟨open_.span.start, close.span.stop⟩)
  | expr {semicolon : Located} {ts rest : List Located} {e : Expr} :
      Reads far 0 ts (semicolon :: rest) e → semicolon.token = .semicolon →
      ReadsItem far (ts ++ [semicolon]) rest (.expr e)

/-- The productions of lists of items. -/
inductive ReadsItems (far : List Located → List Located → Prop) :
    List Located → List Located → List Item → Prop where
  | nil {rest : List Located} : ReadsItems far [] rest []
  | cons {ts us rest : List Located} {item : Item} {others : List Item} :
      ReadsItem far ts (us ++ rest) item → ReadsItems far us rest others →
      ReadsItems far (ts ++ us) rest (item :: others)

end

end TagLang
