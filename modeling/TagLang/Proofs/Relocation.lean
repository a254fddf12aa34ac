import TagLang.Nesting
import TagLang.Tree.Draft

/-!
# Relocation of programs

Spans are carried along by every stage of a check, but no stage looks at them.  A
relocation moves the starts and the stops of spans, each by a map that keeps their order.
Reading relocated tokens gives the relocated program.

* `Relocation.span` moves a span.  The least range that covers two spans moves with them,
  `Relocation.span_hull`; nothing else is ever computed from spans.
* The other definitions move what holds spans: trees, drafts and syntax errors.
* `Relocation.move_stage` and `Relocation.read_draft` are the steps of the parser, and
  `Relocation.readAll_draft` its run.  `Relocation.ofTokens_located` is about programs, and
  `Relocation.exceeding?_located` about the nesting of tokens.

The end of the source is not a place of a token.  Where it is reported, it is given by the
length of the source, which may change as well.
-/

namespace TagLang

/-- How spans move.  Starts and stops have maps of their own, so that space can be made
between a stop and a start at the same offset. -/
structure Relocation where
  start : Nat → Nat
  stop : Nat → Nat
  start_mono : ∀ {a b}, a ≤ b → start a ≤ start b
  stop_mono : ∀ {a b}, a ≤ b → stop a ≤ stop b
  stop_zero : stop 0 = 0

namespace Relocation

variable (r : Relocation)

/-! ## Spans and trees -/

def span (span : Span) : Span :=
  ⟨r.start span.start, r.stop span.stop⟩

def located (t : Located) : Located :=
  ⟨t.token, r.span t.span⟩

def name (name : Name) : Name :=
  ⟨name.text, r.span name.span⟩

def ascription (ascription : Ascription) : Ascription :=
  ⟨ascription.members, r.span ascription.span⟩

mutual

def expr : Expr → Expr
  | .literal value span => .literal value (r.span span)
  | .var name span => .var (r.name name) (r.span span)
  | .call callee arguments span => .call (r.name callee) (exprs arguments) (r.span span)
  | .unary op operand span => .unary op (expr operand) (r.span span)
  | .binary op left right span => .binary op (expr left) (expr right) (r.span span)
  | .conditional condition consequent alternative span =>
    .conditional (expr condition) (expr consequent) (expr alternative) (r.span span)

def exprs : List Expr → List Expr
  | [] => []
  | e :: rest => expr e :: exprs rest

end

def parameter (parameter : Parameter) : Parameter :=
  ⟨r.name parameter.name, parameter.ascription.map r.ascription⟩

def varDecl (declaration : VarDecl) : VarDecl :=
  ⟨r.name declaration.name, r.ascription declaration.ascription,
    declaration.initializer.map r.expr, r.span declaration.span⟩

def fnDecl (declaration : FnDecl) : FnDecl :=
  ⟨r.name declaration.name, declaration.parameters.map r.parameter,
    r.ascription declaration.result, r.span declaration.span⟩

mutual

def item : Item → Item
  | .var declaration => .var (r.varDecl declaration)
  | .fn declaration => .fn (r.fnDecl declaration)
  | .block block span => .block (items block) (r.span span)
  | .expr e => .expr (r.expr e)

def items : List Item → List Item
  | [] => []
  | first :: rest => item first :: items rest

end

theorem exprs_eq_map (es : List Expr) : r.exprs es = es.map r.expr := by
  induction es with
  | nil => rw [exprs, List.map_nil]
  | cons e rest ih => rw [exprs, List.map_cons, ih]

theorem items_eq_map (is : List Item) : r.items is = is.map r.item := by
  induction is with
  | nil => rw [items, List.map_nil]
  | cons first rest ih => rw [items, List.map_cons, ih]

theorem span_expr (e : Expr) : (r.expr e).span = r.span e.span := by
  cases e <;> rw [expr] <;> rfl

/-- The least range that covers two spans moves with them. -/
theorem span_hull (first second : Span) :
    r.span (first.hull second) = (r.span first).hull (r.span second) := by
  have hstart : r.start (min first.start second.start) =
      min (r.start first.start) (r.start second.start) := by
    rcases Nat.le_total first.start second.start with h | h
    · rw [Nat.min_eq_left h, Nat.min_eq_left (r.start_mono h)]
    · rw [Nat.min_eq_right h, Nat.min_eq_right (r.start_mono h)]
  have hstop : r.stop (max first.stop second.stop) =
      max (r.stop first.stop) (r.stop second.stop) := by
    rcases Nat.le_total first.stop second.stop with h | h
    · rw [Nat.max_eq_right h, Nat.max_eq_right (r.stop_mono h)]
    · rw [Nat.max_eq_left h, Nat.max_eq_left (r.stop_mono h)]
  unfold Span.hull span
  rw [hstart, hstop]

theorem expr_apply (op : UnaryOp) (place : Span) (operand : Expr) :
    r.expr (operand.apply op place) = (r.expr operand).apply op (r.span place) := by
  rw [Expr.apply, expr, span_hull, Expr.apply, span_expr]

theorem expr_combine (left : Expr) (op : BinaryOp) (right : Expr) :
    r.expr (left.combine op right) = (r.expr left).combine op (r.expr right) := by
  rw [Expr.combine, expr, span_hull, Expr.combine, span_expr, span_expr]

/-! ## Chains -/

def link (link : BinaryOp × Expr) : BinaryOp × Expr :=
  (link.1, r.expr link.2)

def flat (flat : Flat) : Flat :=
  (r.expr flat.1, flat.2.map r.link)

theorem merge_flat (level : Level) (first : Expr) (links : List (BinaryOp × Expr)) :
    merge level (r.expr first) (links.map r.link) = r.flat (merge level first links) := by
  induction links generalizing first with
  | nil => rfl
  | cons head links ih =>
    obtain ⟨op, next⟩ := head
    show merge level (r.expr first) ((op, r.expr next) :: links.map r.link) = _
    rw [merge, merge]
    split
    · rw [← expr_combine, ih]
    · rw [ih]
      rfl

theorem assemble_flat (chain : Flat) : assemble (r.flat chain) = r.expr (assemble chain) := by
  have hfold : ∀ (levels : List Level) (chain : Flat),
      levels.foldl (fun flat level => merge level flat.1 flat.2) (r.flat chain) =
        r.flat (levels.foldl (fun flat level => merge level flat.1 flat.2) chain) := by
    intro levels
    induction levels with
    | nil => exact fun _ => rfl
    | cons level levels ih =>
      intro chain
      rw [List.foldl_cons, List.foldl_cons, ← ih, ← merge_flat]
      rfl
  unfold assemble
  rw [hfold]
  rfl

def sign (sign : UnaryOp × Span) : UnaryOp × Span :=
  (sign.1, r.span sign.2)

def chain (chain : Chain) : Chain :=
  ⟨chain.done.map fun link => (r.expr link.1, link.2), chain.signs.map r.sign⟩

theorem operand_chain (c : Chain) (atom : Expr) :
    (r.chain c).operand (r.expr atom) = r.expr (c.operand atom) := by
  obtain ⟨done, signs⟩ := c
  unfold Chain.operand chain
  induction signs generalizing atom with
  | nil => rfl
  | cons head signs ih =>
    simp only [List.map_cons, List.foldl_cons]
    rw [← ih, expr_apply]
    rfl

theorem extend_chain (c : Chain) (atom : Expr) (op : BinaryOp) :
    (r.chain c).extend (r.expr atom) op = r.chain (c.extend atom op) := by
  unfold Chain.extend
  rw [operand_chain]
  rfl

theorem isEmpty_chain (c : Chain) : (r.chain c).isEmpty = c.isEmpty := by
  simp [Chain.isEmpty, chain]

theorem close_chain (c : Chain) (atom : Expr) :
    (r.chain c).close (r.expr atom) = r.expr (c.close atom) := by
  have hfold : ∀ (done : List (Expr × BinaryOp)) (flat : Flat),
      (done.map fun link => (r.expr link.1, link.2)).foldl
          (fun flat link => (link.1, (link.2, flat.1) :: flat.2)) (r.flat flat) =
        r.flat (done.foldl (fun flat link => (link.1, (link.2, flat.1) :: flat.2)) flat) := by
    intro done
    induction done with
    | nil => exact fun _ => rfl
    | cons head done ih =>
      intro flat
      rw [List.map_cons, List.foldl_cons, List.foldl_cons, ← ih]
      rfl
  unfold Chain.close
  rw [← assemble_flat]
  unfold Chain.flat
  rw [operand_chain, ← hfold]
  rfl

/-! ## Items in part -/

def opener : Opener → Opener
  | .group => .group
  | .arguments callee given => .arguments (r.name callee) (given.map r.expr)
  | .condition start => .condition (r.start start)
  | .consequent start condition => .consequent (r.start start) (r.expr condition)
  | .alternative start condition consequent =>
    .alternative (r.start start) (r.expr condition) (r.expr consequent)

def pending (pending : Pending) : Pending :=
  ⟨r.opener pending.opener, r.chain pending.around⟩

def goal : Goal → Goal
  | .statement => .statement
  | .initializer start name ascription =>
    .initializer (r.start start) (r.name name) (r.ascription ascription)

def header (header : Header) : Header :=
  ⟨r.start header.start, r.name header.name, header.parameters.map r.parameter⟩

def site : Site → Site
  | .ofVar start name => .ofVar (r.start start) (r.name name)
  | .ofParameter header name => .ofParameter (r.header header) (r.name name)
  | .ofResult header => .ofResult (r.header header)

def stage : Stage → Stage
  | .item => .item
  | .varName start => .varName (r.start start)
  | .varColon start name => .varColon (r.start start) (r.name name)
  | .fnName start => .fnName (r.start start)
  | .fnOpen start name => .fnOpen (r.start start) (r.name name)
  | .parameter header => .parameter (r.header header)
  | .parameterName header name => .parameterName (r.header header) (r.name name)
  | .arrow header => .arrow (r.header header)
  | .type site => .type (r.site site)
  | .typeMember site ascription => .typeMember (r.site site) (r.ascription ascription)
  | .typeBar site ascription => .typeBar (r.site site) (r.ascription ascription)
  | .operand goal pending chain =>
    .operand (r.goal goal) (pending.map r.pending) (r.chain chain)
  | .operator goal pending chain atom callee =>
    .operator (r.goal goal) (pending.map r.pending) (r.chain chain) (r.expr atom)
      (callee.map r.name)

def move : Move → Move
  | .proceed stage => .proceed (r.stage stage)
  | .finish item => .finish (r.item item)
  | .enter => .enter
  | .leave => .leave

theorem settle_pending (stop : Nat) (outer : List Pending) (c : Chain) (atom : Expr) :
    settle (r.stop stop) (outer.map r.pending) (r.chain c) (r.expr atom) =
      ((settle stop outer c atom).1.map r.pending, r.expr (settle stop outer c atom).2) := by
  induction outer generalizing c atom with
  | nil => simp only [List.map_nil, settle, close_chain]
  | cons first outer ih =>
    obtain ⟨opener, around⟩ := first
    cases opener with
    | alternative start condition consequent =>
      simp only [List.map_cons, pending, Relocation.opener, settle, close_chain]
      rw [← ih, expr]
      rfl
    | group | arguments | condition | consequent =>
      simp only [List.map_cons, pending, Relocation.opener, settle, close_chain]

theorem following_pending (outer : List Pending) :
    following (outer.map r.pending) = following outer := by
  induction outer with
  | nil => rfl
  | cons first outer ih =>
    obtain ⟨opener, around⟩ := first
    cases opener with
    | alternative start condition consequent => exact ih
    | group | arguments | condition | consequent => rfl

theorem expected_stage (nested : Bool) (stage : Stage) :
    (r.stage stage).expected nested = stage.expected nested := by
  cases stage with
  | typeMember site ascription => cases site <;> rfl
  | operand goal outer c =>
    simp only [Relocation.stage, Stage.expected, isEmpty_chain]
    cases c.isEmpty with
    | false => rfl
    | true =>
      cases outer with
      | nil => rfl
      | cons first outer =>
        obtain ⟨opener, around⟩ := first
        cases opener <;> rfl
  | operator goal outer c atom callee =>
    simp only [Relocation.stage, Stage.expected, following_pending, Option.isSome_map]
  | item | varName | varColon | fnName | fnOpen | parameter | parameterName | arrow | type
  | typeBar => rfl

/-! ## Steps of the parser -/

theorem moveOperand (goal : Goal) (outer : List Pending) (c : Chain) (t : Located) :
    Stage.moveOperand (r.goal goal) (outer.map r.pending) (r.chain c) (r.located t) =
      (Stage.moveOperand goal outer c t).map r.stage := by
  obtain ⟨token, place⟩ := t
  cases token with
  | rightParen =>
    cases outer with
    | nil => rfl
    | cons first outer =>
      obtain ⟨opener, around⟩ := first
      cases opener with
      | arguments callee given =>
        simp only [List.map_cons, pending, Relocation.opener, located, Stage.moveOperand,
          isEmpty_chain]
        cases c.isEmpty with
        | false => rfl
        | true => simp [Stage.called, Relocation.stage, expr, exprs_eq_map, name, span]
      | group | condition | consequent | alternative => rfl
  | int | str | bool =>
    simp [Stage.moveOperand, Relocation.stage, located, expr]
  | name text =>
    simp [Stage.moveOperand, Relocation.stage, located, expr, Relocation.name]
  | _ => rfl

theorem moveEnd (goal : Goal) (outer : List Pending) (e : Expr) (t : Located) :
    Stage.moveEnd (r.goal goal) (outer.map r.pending) (r.expr e) (r.located t) =
      (Stage.moveEnd goal outer e t).map r.move := by
  obtain ⟨token, place⟩ := t
  cases outer with
  | nil =>
    cases token with
    | semicolon =>
      cases goal <;>
        simp [Stage.moveEnd, located, move, Relocation.goal, Goal.finish, item, varDecl, span]
    | _ => rfl
  | cons first outer =>
    obtain ⟨opener, around⟩ := first
    cases opener with
    | arguments callee given =>
      cases token with
      | rightParen =>
        simp [Stage.moveEnd, located, move, pending, Relocation.opener, Stage.called,
          Relocation.stage, expr, exprs_eq_map, name, span]
      | _ => rfl
    | group | condition | consequent | alternative => cases token <;> rfl

/-- A token after an operand.  It goes on with the expression, or ends it together with
the conditionals that end there. -/
theorem moveOperator (stop : Nat) (goal : Goal) (outer : List Pending) (c : Chain) (atom : Expr)
    (callee : Option Name) (t : Located) :
    Stage.moveOperator (r.stop stop) (r.goal goal) (outer.map r.pending) (r.chain c) (r.expr atom)
        (callee.map r.name) (r.located t) =
      (Stage.moveOperator stop goal outer c atom callee t).map r.move := by
  have hend := r.moveEnd goal (settle stop outer c atom).1 (settle stop outer c atom).2 t
  have hextend := r.extend_chain c atom
  have hsettle := r.settle_pending stop outer c atom
  obtain ⟨token, place⟩ := t
  unfold Stage.moveOperator
  simp only [located, hsettle]
  cases hop : token.binaryOp? with
  | some op => simp [hextend, move, Relocation.stage]
  | none =>
    cases callee with
    | none => cases token <;> exact hend
    | some callee =>
      cases token with
      | leftParen => rfl
      | _ => exact hend

theorem moveAscribed (site : Site) (ascription : Ascription) (t : Located) :
    Stage.moveAscribed (r.site site) (r.ascription ascription) (r.located t) =
      (Stage.moveAscribed site ascription t).map r.move := by
  obtain ⟨token, place⟩ := t
  cases site with
  | ofVar start name => cases token <;> rfl
  | ofParameter header name => cases token <;> rfl
  | ofResult header =>
    cases token with
    | semicolon =>
      simp [Stage.moveAscribed, Relocation.site, Relocation.header, located, move, item, fnDecl,
        span]
    | _ => rfl

/-- What a token does to an item does not depend on where they are. -/
theorem move_stage (stop : Nat) (t : Located) (stage : Stage) :
    (r.stage stage).move (r.stop stop) (r.located t) = (stage.move stop t).map r.move := by
  cases stage with
  | operand goal outer c =>
    simp only [Relocation.stage, Stage.move, moveOperand, Option.map_map]
    rfl
  | operator goal outer c atom callee =>
    exact r.moveOperator stop goal outer c atom callee t
  | item =>
    have hoperand : Stage.moveOperand .statement [] .empty (r.located t) = _ :=
      r.moveOperand .statement [] .empty t
    have hproceed : (Stage.moveOperand .statement [] .empty (r.located t)).map .proceed =
        ((Stage.moveOperand .statement [] .empty t).map .proceed).map r.move := by
      rw [hoperand, Option.map_map, Option.map_map]
      rfl
    obtain ⟨token, place⟩ := t
    cases token with
    | kwVar | kwFn | leftBrace | rightBrace => rfl
    | _ => exact hproceed
  | typeMember site ascription =>
    have hascribed := r.moveAscribed site ascription t
    obtain ⟨token, place⟩ := t
    cases token with
    | pipe => rfl
    | _ => exact hascribed
  | varName | varColon | fnName | fnOpen | parameter | parameterName | arrow | type | typeBar =>
    obtain ⟨token, place⟩ := t
    cases token <;> rfl

/-! ## Runs of the parser -/

def openBlock (block : OpenBlock) : OpenBlock :=
  ⟨r.start block.start, block.before.map r.item⟩

def draft (draft : Draft) : Draft :=
  ⟨draft.items.map r.item, draft.blocks.map r.openBlock, r.stage draft.stage, r.stop draft.stop⟩

/-- A syntax error moves with its token.  Without a token it is at the end of the source. -/
def syntaxError (length : Nat) (error : SyntaxError) : SyntaxError :=
  { error with
    span := match error.found with
      | some _ => r.span error.span
      | none => .point length }

theorem read_draft (draft : Draft) (t : Located) :
    (r.draft draft).read (r.located t) = (draft.read t).map r.draft := by
  obtain ⟨items, blocks, stage, stop⟩ := draft
  unfold Draft.read
  simp only [Relocation.draft, move_stage]
  cases stage.move stop t with
  | none => rfl
  | some result =>
    cases result with
    | proceed stage => rfl
    | finish item => rfl
    | enter => rfl
    | leave =>
      cases blocks with
      | nil => rfl
      | cons block blocks =>
        simp [move, Relocation.draft, openBlock, located, item, items_eq_map, span,
          Relocation.stage]

theorem expected_draft (draft : Draft) : (r.draft draft).expected = draft.expected := by
  unfold Draft.expected
  simp only [Relocation.draft, expected_stage, List.isEmpty_map]

theorem readAll_draft (length : Nat) (ts : List Located) (draft : Draft) :
    (r.draft draft).readAll (ts.map r.located) =
      match draft.readAll ts with
      | .ok draft => .ok (r.draft draft)
      | .error error => .error (r.syntaxError length error) := by
  induction ts generalizing draft with
  | nil => rfl
  | cons t rest ih =>
    rw [List.map_cons, Draft.readAll, Draft.readAll, read_draft]
    cases draft.read t with
    | some next => exact ih next
    | none =>
      simp only [Option.map_none, expected_draft]
      rfl

theorem draft_start : r.draft .start = .start := by
  simp [Relocation.draft, Draft.start, Relocation.stage, r.stop_zero]

/-- Relocated tokens make the relocated program, or fail where the tokens did. -/
theorem ofTokens_located (length length' : Nat) (ts : List Located) :
    Program.ofTokens length' (ts.map r.located) =
      match Program.ofTokens length ts with
      | .ok program => .ok ⟨r.items program.items, spanOfTokens length' (ts.map r.located)⟩
      | .error error => .error (r.syntaxError length' error) := by
  have hread := r.readAll_draft length' ts .start
  rw [draft_start] at hread
  unfold Program.ofTokens
  rw [hread]
  cases Draft.start.readAll ts with
  | error error => rfl
  | ok draft =>
    have hexpected := r.expected_draft draft
    have hunfinished : Except.error (ε := SyntaxError) (α := Program)
          ⟨none, .point length', (r.draft draft).expected⟩ =
        .error (r.syntaxError length' ⟨none, .point length, draft.expected⟩) := by
      rw [hexpected]
      rfl
    obtain ⟨items, blocks, stage, stop⟩ := draft
    cases stage with
    | item =>
      cases blocks with
      | nil => simp [Relocation.draft, Relocation.stage, items_eq_map]
      | cons => exact hunfinished
    | _ => exact hunfinished

/-- The nesting is exceeded at the same token. -/
theorem exceeding?_located (limit : Nat) (ts : List Located) :
    Nesting.exceeding? limit (ts.map r.located) = (Nesting.exceeding? limit ts).map r.span := by
  have hfrom : ∀ n : Nesting, Nesting.exceedingFrom? limit n (ts.map r.located) =
      (Nesting.exceedingFrom? limit n ts).map r.span := by
    induction ts with
    | nil => exact fun _ => rfl
    | cons t rest ih =>
      intro n
      rw [List.map_cons, Nesting.exceedingFrom?, Nesting.exceedingFrom?]
      show (if limit < (n.step t.token).depth then some (r.span t.span) else _) = _
      split
      · rfl
      · exact ih _
  exact hfrom .start

end Relocation

end TagLang
