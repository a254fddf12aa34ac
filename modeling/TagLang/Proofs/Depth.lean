import TagLang.Proofs.Undefined

/-!
# What is reported on the limit

A resolution carries a flag that tells whether the limit has been reported.  This module says
what the flag does, and which node the one report is about.

* `Expr.plan_besidesLimit`: below the limit no node has anything to report on it.
* The flag: `Expr.resolve_flagged`.  With the flag set, a resolution finds the same but for
  the report on the limit.
* The node: `FirstBeyond` picks the first node beyond the limit among the events of a walk.
  `Expr.accounts` says that this node is reported, and no other one.
* `Expr.undefined_of_limit_lt`: what is too high is `undefined`.
* `resolve_accounts_for_depth` puts this together for every starting point, and for the
  counter of a walk.
-/

namespace TagLang

/-! ## Findings of single nodes -/

section

variable {scopes : Scopes} {callee : Name} {index given : Nat} {expected : Option Tag}
  {found : Tag} {place whole : Span}

theorem checkCallee_besidesLimit : BesidesLimit (checkCallee scopes callee given whole) := by
  unfold checkCallee
  split
  · split
    · exact .nil
    · exact .singleton rfl
  · exact .singleton rfl
  · exact .singleton rfl

theorem checkArgument_besidesLimit :
    BesidesLimit (checkArgument callee index expected found place) := by
  intro finding hmem
  rcases checkArgument_onArguments callee index expected found place finding hmem with h | h <;>
    simp [Finding.besidesLimit, h]

theorem checkCondition_besidesLimit : BesidesLimit (checkCondition found place) := by
  unfold checkCondition
  split
  · exact .nil
  · exact .singleton rfl

end

/-- The limit is no matter of plans. -/
theorem Expr.plan_besidesLimit (scopes : Scopes) (expected : Option Tag) (e : Expr) :
    (e.plan scopes expected).Reports fun _ finding => finding.besidesLimit = true := by
  cases e with
  | literal value span => trivial
  | var name span => exact .conclude resolveName_from.besidesLimit
  | call callee arguments span =>
    exact ⟨checkCallee_besidesLimit,
      .ofArguments _ _ _ _ _ _ fun _ _ _ _ _ => checkArgument_besidesLimit⟩
  | unary op operand span => exact fun found => .conclude resolveUnary_from.besidesLimit
  | binary op left right span =>
    exact fun first second => .conclude resolveBinary_from.besidesLimit
  | conditional condition consequent alternative span =>
    intro found
    exact ⟨checkCondition_besidesLimit, fun first second => .conclude decided_from.besidesLimit⟩

theorem BesidesLimit.filter_eq {findings : List Finding} (h : BesidesLimit findings) :
    findings.filter Finding.besidesLimit = findings :=
  List.filter_eq_self.2 h

theorem filter_limit_eq_nil_iff {findings : List Finding} :
    (findings.filter fun finding => !finding.besidesLimit) = [] ↔ BesidesLimit findings := by
  simp [List.filter_eq_nil_iff, BesidesLimit]

/-! ## The flag -/

/-- What is left of an outcome when the limit had been reported before. -/
def Outcome.flagged (outcome : Outcome) : Outcome :=
  ⟨outcome.tag, true, outcome.findings.filter Finding.besidesLimit⟩

/-- The flag keeps the limit from being reported and does nothing else. -/
theorem Expr.resolve_flagged (env : Env) (e : Expr) :
    ∀ (expected : Option Tag) (depth : Nat) (flag : Bool),
      e.resolve env expected depth true = (e.resolve env expected depth flag).flagged := by
  induction e using Expr.induction_parts with
  | h e ih =>
    intro expected depth flag
    rcases Nat.lt_or_ge depth env.limit with hdepth | hdeep
    · rw [Expr.resolve_of_lt hdepth, Expr.resolve_of_lt hdepth]
      exact (e.plan_through _ _).run_kept (e.plan_besidesLimit _ _) (fun _ => true)
        (fun _ => BesidesLimit.filter_eq) List.filter_append
        (fun part hpart expected => ih part hpart expected (depth + 1)) flag
    · rw [Expr.resolve_of_limit_le hdeep, Expr.resolve_of_limit_le hdeep]
      cases flag <;> rfl

/-- The tag does not depend on the flag. -/
theorem Expr.tag_flag (env : Env) (e : Expr) (expected : Option Tag) (depth : Nat)
    (flag flag' : Bool) :
    (e.resolve env expected depth flag).tag = (e.resolve env expected depth flag').tag := by
  have hflag := congrArg Outcome.tag (e.resolve_flagged env expected depth flag)
  have hflag' := congrArg Outcome.tag (e.resolve_flagged env expected depth flag')
  exact hflag.symm.trans hflag'

/-- What is too high is `undefined`.  Without the flag this is reported, and a report on the
limit does not go with another tag. -/
theorem Expr.undefined_of_limit_lt {env : Env} {e : Expr} {depth : Nat}
    (h : env.limit < depth + e.height) (expected : Option Tag) (flag : Bool) :
    (e.resolve env expected depth flag).tag = .undefined := by
  rw [Expr.tag_flag env e expected depth flag false]
  by_contra htag
  have hexceeded : (e.resolve env expected depth false).exceeded = true := by
    rw [Expr.resolve_exceeded, decide_eq_true h]
    rfl
  obtain ⟨finding, hmem, hcode⟩ := e.reportsLimit env expected depth hexceeded
  have hother := e.onArguments_of_defined env expected depth false htag finding hmem
  rw [Finding.OnArguments, hcode] at hother
  rcases hother with hother | hother <;> contradiction

/-! ## The first node beyond the limit -/

/-- The node of an event that lies at the limit or deeper. -/
def Event.beyond? (limit : Nat) : Event → Option Expr
  | enter node depth => if limit ≤ depth then some node else none
  | leave _ _ => none

/-- The first node that a walk comes to at the limit or deeper. -/
def firstBeyond? (limit : Nat) (events : List Event) : Option Expr :=
  events.findSome? (Event.beyond? limit)

/-- The walk comes to the node at the limit or deeper, and to no node before it. -/
def FirstBeyond (limit : Nat) (events : List Event) (node : Expr) : Prop :=
  ∃ before depth rest, events = before ++ .enter node depth :: rest ∧ limit ≤ depth ∧
    ∀ other depth', .enter other depth' ∈ before → depth' < limit

theorem Event.beyond?_eq_none {limit : Nat} {event : Event} :
    event.beyond? limit = none ↔ ∀ node depth, event = .enter node depth → depth < limit := by
  cases event with
  | enter node depth => simp [Event.beyond?]
  | leave node tag => simp [Event.beyond?]

theorem FirstBeyond.of_firstBeyond? {limit : Nat} {events : List Event} {node : Expr}
    (h : firstBeyond? limit events = some node) : FirstBeyond limit events node := by
  obtain ⟨before, event, rest, hevents, hevent, hbefore⟩ := List.findSome?_eq_some_iff.1 h
  cases event with
  | leave other tag => contradiction
  | enter other depth =>
    simp only [Event.beyond?, Option.ite_none_right_eq_some, Option.some.injEq] at hevent
    obtain ⟨hdepth, rfl⟩ := hevent
    refine ⟨before, depth, rest, hevents, hdepth, ?_⟩
    intro third depth' hmem
    exact Event.beyond?_eq_none.1 (hbefore _ hmem) third depth' rfl

theorem firstBeyond?_append (limit : Nat) (first second : List Event) :
    firstBeyond? limit (first ++ second) =
      (firstBeyond? limit first).or (firstBeyond? limit second) :=
  List.findSome?_append

/-- Coming to a node within the limit and leaving it does not count. -/
theorem firstBeyond?_node {limit depth : Nat} (h : depth < limit) (e : Expr) (tag : Tag)
    (events : List Event) :
    firstBeyond? limit (.enter e depth :: events ++ [.leave e tag]) =
      firstBeyond? limit events := by
  rw [firstBeyond?_append]
  simp [firstBeyond?, Event.beyond?, Nat.not_le.2 h]

/-- What is to be reported on the limit after some events. -/
def limitReports (limit : Nat) (flag : Bool) (events : List Event) : List Finding :=
  if flag then []
  else ((firstBeyond? limit events).map fun node => Finding.tooDeep limit node.span).toList

/-- The flag and the findings after some events are those that the limit asks for. -/
structure Accounts (limit : Nat) (flag : Bool) (events : List Event) (exceeded : Bool)
    (findings : List Finding) : Prop where
  exceeded_eq : exceeded = (flag || (firstBeyond? limit events).isSome)
  reports_eq : (findings.filter fun finding => !finding.besidesLimit) =
    limitReports limit flag events

namespace Accounts

variable {limit depth : Nat} {flag exceeded exceeded' : Bool} {events events' : List Event}
  {findings findings' more : List Finding}

/-- Once a node is reported, none of the others is. -/
theorem append (h : Accounts limit flag events exceeded findings)
    (h' : Accounts limit exceeded events' exceeded' findings') :
    Accounts limit flag (events ++ events') exceeded' (findings ++ findings') := by
  have hexceeded := h.exceeded_eq
  constructor
  · rw [h'.exceeded_eq, h.exceeded_eq, firstBeyond?_append, Option.isSome_or, Bool.or_assoc]
  · rw [List.filter_append, h.reports_eq, h'.reports_eq]
    unfold limitReports
    rw [firstBeyond?_append, hexceeded]
    -- With the flag clear, a node among the first events sets it for the second ones.
    cases flag with
    | true => rfl
    | false => cases firstBeyond? limit events <;> rfl

theorem nil (h : BesidesLimit more) : Accounts limit flag [] flag more := by
  constructor
  · exact (Bool.or_false flag).symm
  · rw [filter_limit_eq_nil_iff.2 h]
    cases flag <;> rfl

/-- Other findings before do not matter. -/
theorem after (h : Accounts limit flag events exceeded findings) (hmore : BesidesLimit more) :
    Accounts limit flag events exceeded (more ++ findings) :=
  (nil hmore).append h

/-- A node within the limit adds nothing to its parts. -/
theorem node (h : Accounts limit flag events exceeded findings) (hdepth : depth < limit)
    (e : Expr) (tag : Tag) :
    Accounts limit flag (.enter e depth :: events ++ [.leave e tag]) exceeded findings := by
  constructor
  · rw [firstBeyond?_node hdepth]
    exact h.exceeded_eq
  · rw [limitReports, firstBeyond?_node hdepth]
    exact h.reports_eq

end Accounts

theorem Plan.Through.accounts {plan : Plan} {parts : List Expr} (h : plan.Through parts)
    (hreports : plan.Reports fun _ finding => finding.besidesLimit = true) {env : Env} {depth : Nat}
    (hparts : ∀ part ∈ parts, ∀ expected flag,
      Accounts env.limit flag (part.trace env expected depth flag)
        (part.resolve env expected depth flag).exceeded
        (part.resolve env expected depth flag).findings) (flag : Bool) :
    Accounts env.limit flag (plan.trace env depth flag)
      (plan.run (env.resolver depth) flag).exceeded
      (plan.run (env.resolver depth) flag).findings := by
  induction h generalizing flag with
  | done => exact .nil .nil
  | report _ ih => exact (ih hreports.2 hparts flag).after hreports.1
  | part _ ih =>
    obtain ⟨hfirst, hrest⟩ := List.forall_mem_cons.1 hparts
    exact (hfirst _ flag).append (ih _ (hreports _) hrest _)

/-- The first node that a walk comes to beyond the limit is reported, and no other one. -/
theorem Expr.accounts (env : Env) (e : Expr) :
    ∀ (expected : Option Tag) (depth : Nat) (flag : Bool),
      Accounts env.limit flag (e.trace env expected depth flag)
        (e.resolve env expected depth flag).exceeded
        (e.resolve env expected depth flag).findings := by
  induction e using Expr.induction_parts with
  | h e ih =>
    intro expected depth flag
    rcases Nat.lt_or_ge depth env.limit with hdepth | hdeep
    · rw [Expr.trace_of_lt hdepth, Expr.resolve_of_lt hdepth]
      have hplan := (e.plan_through env.scopes expected).accounts (e.plan_besidesLimit _ _)
        (fun part hpart expected => ih part hpart expected (depth + 1)) flag
      exact hplan.node hdepth e _
    · rw [Expr.trace_of_limit_le hdeep, Expr.resolve_of_limit_le hdeep]
      have hfirst : firstBeyond? env.limit [.enter e depth, .leave e .undefined] = some e := by
        simp [firstBeyond?, Event.beyond?, hdeep]
      constructor
      · rw [hfirst]
        exact (Bool.or_true flag).symm
      · rw [limitReports, hfirst]
        cases flag <;> rfl

/-- A walk comes to a node beyond the limit where the expression is too high. -/
theorem Expr.isSome_firstBeyond? (env : Env) (e : Expr) (expected : Option Tag) (depth : Nat) :
    (firstBeyond? env.limit (e.trace env expected depth false)).isSome =
      decide (env.limit < depth + e.height) := by
  have haccounts := (e.accounts env expected depth false).exceeded_eq
  rw [Expr.resolve_exceeded, Bool.false_or, Bool.false_or] at haccounts
  exact haccounts.symm

/-- With the flag set, or within the limit, nothing is reported on the limit. -/
theorem Expr.besidesLimit {env : Env} {e : Expr} {depth : Nat} {flag : Bool}
    (h : flag = true ∨ depth + e.height ≤ env.limit) (expected : Option Tag) :
    BesidesLimit (e.resolve env expected depth flag).findings := by
  rw [← filter_limit_eq_nil_iff, (e.accounts env expected depth flag).reports_eq]
  cases flag with
  | true => rfl
  | false =>
    have hheight : depth + e.height ≤ env.limit := by simpa using h
    have hnone : firstBeyond? env.limit (e.trace env expected depth false) = none := by
      rw [← Option.not_isSome_iff_eq_none, Expr.isSome_firstBeyond?, decide_eq_true_iff]
      omega
    rw [limitReports, hnone]
    rfl

/-! ## Starting points -/

/-- How a resolution keeps account of the depth.  `new` are the diagnostics that it adds to
the log of its starting point, and `events` is what it does. -/
structure DepthAccount (context : Context) (e : Expr) (tag : Tag) (after : Context)
    (new : List Diagnostic) (events : List Event) : Prop where
  /-- Expectation, depth and limit are as before. -/
  kept : after = { context with exceeded := after.exceeded, log := after.log }
  appended : after.log.diagnostics = context.log.diagnostics ++ new
  exceeded_iff : after.exceeded = true ↔
    context.exceeded = true ∨ context.limit < context.depth + e.height
  /-- The limit is reported once, at the first node beyond it. -/
  once : context.exceeded = false → context.limit < context.depth + e.height →
    ∃ node, FirstBeyond context.limit events node ∧
      new.filter (·.code = .nestingTooDeep) =
        [(Finding.tooDeep context.limit node.span).diagnostic]
  never : context.exceeded = true ∨ context.depth + e.height ≤ context.limit →
    new.filter (·.code = .nestingTooDeep) = []
  undefined : context.limit < context.depth + e.height → tag = .undefined
  /-- All nodes down to the limit are visited, and none below it. -/
  visited : ∀ node depth, .enter node depth ∈ events ↔
    e.Reaches context.limit context.depth node depth
  /-- A node is visited before its parts, and these from left to right. -/
  ordered : events.filterMap Event.entered? =
    e.preorder (context.limit - context.depth) context.depth

theorem filter_map_tooDeep (findings : List Finding) :
    (findings.map Finding.diagnostic).filter (·.code = .nestingTooDeep) =
      (findings.filter fun finding => !finding.besidesLimit).map Finding.diagnostic := by
  rw [List.filter_map]
  congr 2
  funext finding
  have hcode : finding.diagnostic.code = finding.code := rfl
  simp [Finding.besidesLimit, hcode]

/-- Depth is accounted for exactly, whatever the expression and the starting point.  A walk
with a counter of one machine word does the same.  That it does not fail means that the
counter stays in its range. -/
theorem resolve_accounts_for_depth (e : Expr) (context : Context) :
    (∃ new, DepthAccount context e (context.resolve e).1 (context.resolve e).2 new
      (context.trace e)) ∧
    ∀ w : Walker, w.context = context →
      ∃ w', e.walk w = some ((context.resolve e).1, w') ∧
        w'.context = (context.resolve e).2 ∧ w'.trace = w.trace ++ context.trace e := by
  let env : Env := ⟨context.scopes, context.limit⟩
  let outcome := e.resolve env context.expected context.depth context.exceeded
  have haccounts := e.accounts env context.expected context.depth context.exceeded
  have hexceeded := e.resolve_exceeded env context.expected context.depth context.exceeded
  constructor
  · refine ⟨outcome.findings.map Finding.diagnostic, ?_⟩
    constructor
    case kept => rfl
    case appended => rfl
    case exceeded_iff =>
      show outcome.exceeded = true ↔ _
      rw [hexceeded, Bool.or_eq_true, decide_eq_true_iff]
    case once =>
      intro hflag hheight
      have hsome := e.isSome_firstBeyond? env context.expected context.depth
      rw [decide_eq_true hheight] at hsome
      obtain ⟨node, hnode⟩ := Option.isSome_iff_exists.1 hsome
      rw [← hflag] at hnode
      refine ⟨node, .of_firstBeyond? hnode, ?_⟩
      rw [filter_map_tooDeep, haccounts.reports_eq, limitReports, hnode, hflag]
      rfl
    case never =>
      intro hquiet
      rw [filter_map_tooDeep, filter_limit_eq_nil_iff.2 (Expr.besidesLimit hquiet _)]
      rfl
    case undefined =>
      intro hheight
      exact Expr.undefined_of_limit_lt hheight _ _
    case visited =>
      intro node depth
      exact Expr.enter_mem_trace env e _ _ _
    case ordered => exact Expr.entered_trace env e _ _ _
  · rintro w rfl
    exact ⟨_, e.walks w, rfl, rfl⟩

end TagLang
