import TagLang.Proofs.Typing
import TagLang.Session

/-!
# Resolution as a walk with a counter

`Expr.resolve` hands depth and expectation down to the parts of an expression.  Here the
same resolution is a walk that changes one record on its way: the expectation is set and set
back, the depth is a machine word that is counted up and down, and a finding goes into the
log at once.  A walk fails where the counter would leave its range.

* `Walk` and its steps: `descend` and `ascend` count, `under` sets an expectation for a part,
  and `visit` is what happens at every node.  `Expr.walk` puts them together.
* `Expr.trace` lists what a walk does, in order: to which nodes it comes, how deep they lie,
  and with which tags it leaves them.
* `Expr.walks`: a walk never fails, sets everything back, and finds what the resolution
  finds.  `Expr.walk_eq`: at a node it carries out the plan of the node.
* `Expr.entered_trace`: a walk comes to the nodes in preorder.  `Expr.enter_mem_trace`: these
  are all nodes down to the limit, and no others.
  `Expr.closed_trace`: it leaves all of them.
-/

namespace TagLang

/-! ## Walks -/

/-- What a walk does at a node: it comes to the node at some depth, and it leaves the node
with a tag. -/
inductive Event where
  | enter (node : Expr) (depth : Nat)
  | leave (node : Expr) (tag : Tag)

/-- What a walk reads and changes. -/
structure Walker where
  scopes : Scopes
  limit : UInt64
  expected : Option Tag
  depth : UInt64
  exceeded : Bool
  log : Log
  /-- What the walk has done so far. -/
  trace : List Event

/-- A step changes the walker, or fails. -/
abbrev Walk := StateT Walker Option

namespace Walk

/-- Adds to the trace. -/
def note (event : Event) : Walk Unit := fun w =>
  some ((), { w with trace := w.trace ++ [event] })

/-- Puts findings into the log. -/
def report (findings : List Finding) : Walk Unit := fun w =>
  some ((), { w with log := w.log.record findings })

/-- Counts one level down.  This fails at the greatest machine word. -/
def descend : Walk Unit := fun w =>
  if w.depth.toNat + 1 < UInt64.size then some ((), { w with depth := w.depth + 1 }) else none

/-- Counts one level up.  This fails at zero. -/
def ascend : Walk Unit := fun w =>
  if w.depth = 0 then none else some ((), { w with depth := w.depth - 1 })

/-- Walks a part under an expectation, and sets back the one before. -/
def under (expected : Option Tag) (part : Walk Tag) : Walk Tag := do
  let before := (← get).expected
  modify ({ · with expected := expected })
  let tag ← part
  modify ({ · with expected := before })
  return tag

/-- Reports what was found at a node, and goes on with its tag. -/
def conclude (verdict : Verdict) : Walk Tag := do
  report verdict.findings
  return verdict.tag

/-- Passes over a node at the limit.  Only the first one is reported. -/
def passOver (node : Expr) : Walk Tag := do
  let w ← get
  unless w.exceeded do
    set { w with exceeded := true }
    report [.tooDeep w.limit.toNat node.span]
  return .undefined

/-- Walks one level deeper. -/
def deeper (parts : Walk Tag) : Walk Tag := do
  descend
  let tag ← parts
  ascend
  return tag

/-- Comes to a node, and walks its parts one level deeper unless the limit is reached. -/
def visit (node : Expr) (parts : Walk Tag) : Walk Tag := do
  let w ← get
  note (.enter node w.depth.toNat)
  let tag ← if w.limit ≤ w.depth then passOver node else deeper parts
  note (.leave node tag)
  return tag

end Walk

mutual

/-- Resolves an expression on a walk. -/
def Expr.walk : Expr → Walk Tag
  | .literal value span => Walk.visit (.literal value span) (pure value.tag)
  | .var name span =>
    Walk.visit (.var name span) do
      Walk.conclude (resolveName (← get).scopes name)
  | .call callee arguments span =>
    Walk.visit (.call callee arguments span) do
      let scopes := (← get).scopes
      Walk.report (checkCallee scopes callee arguments.length span)
      let anyUndefined ← walkArguments callee 0 (parameterTags scopes callee) arguments
      return if anyUndefined then .undefined else resultTag scopes callee
  | .unary op operand span =>
    Walk.visit (.unary op operand span) do
      let found ← Walk.under none operand.walk
      Walk.conclude (resolveUnary op found operand.span span)
  | .binary op left right span =>
    Walk.visit (.binary op left right span) do
      let first ← Walk.under none left.walk
      let second ← Walk.under none right.walk
      Walk.conclude (resolveBinary op first second left.span right.span span)
  | .conditional condition consequent alternative span =>
    Walk.visit (.conditional condition consequent alternative span) do
      let expected := (← get).expected
      let found ← Walk.under (some .bool) condition.walk
      Walk.report (checkCondition found condition.span)
      let first ← Walk.under expected consequent.walk
      let second ← Walk.under expected alternative.walk
      Walk.conclude <|
        if decides found then
          resolveBranches expected first second consequent.span alternative.span
        else ⟨.undefined, []⟩

/-- Resolves the arguments of a call on a walk, and tells whether one is `undefined`. -/
def walkArguments (callee : Name) (index : Nat) (tags : List Tag) : List Expr → Walk Bool
  | [] => pure false
  | argument :: rest => do
    let found ← Walk.under tags.head? argument.walk
    Walk.report (checkArgument callee index tags.head? found argument.span)
    let others ← walkArguments callee (index + 1) tags.tail rest
    return found == .undefined || others

end

/-! ## What a walk does -/

mutual

/-- What a walk does at an expression and its parts. -/
def Expr.trace (env : Env) (expected : Option Tag) (depth : Nat) (exceeded : Bool) (e : Expr) :
    List Event :=
  .enter e depth ::
    (if env.limit ≤ depth then []
    else
      match e with
      | .literal _ _ => []
      | .var _ _ => []
      | .call callee arguments _ =>
        traceArguments env (parameterTags env.scopes callee) (depth + 1) exceeded arguments
      | .unary _ operand _ => operand.trace env none (depth + 1) exceeded
      | .binary _ left right _ =>
        let first := left.resolve env none (depth + 1) exceeded
        left.trace env none (depth + 1) exceeded ++
          right.trace env none (depth + 1) first.exceeded
      | .conditional condition consequent alternative _ =>
        let decision := condition.resolve env (some .bool) (depth + 1) exceeded
        let first := consequent.resolve env expected (depth + 1) decision.exceeded
        condition.trace env (some .bool) (depth + 1) exceeded ++
          (consequent.trace env expected (depth + 1) decision.exceeded ++
            alternative.trace env expected (depth + 1) first.exceeded)) ++
    [.leave e (e.resolve env expected depth exceeded).tag]

/-- What a walk does at the arguments of a call. -/
def traceArguments (env : Env) (tags : List Tag) (depth : Nat) (exceeded : Bool) :
    List Expr → List Event
  | [] => []
  | argument :: rest =>
    let first := argument.resolve env tags.head? depth exceeded
    argument.trace env tags.head? depth exceeded ++
      traceArguments env tags.tail depth first.exceeded rest

end

/-- What a walk does from a starting point on. -/
def Context.trace (context : Context) (e : Expr) : List Event :=
  e.trace ⟨context.scopes, context.limit⟩ context.expected context.depth context.exceeded

/-- What a walk does on a plan: what it does at the parts that the plan comes to. -/
def Plan.trace (env : Env) (depth : Nat) : Plan → Bool → List Event
  | done _, _ => []
  | report _ _ next, flag => next.trace env depth flag
  | part e expected next, flag =>
    let first := e.resolve env expected depth flag
    e.trace env expected depth flag ++ (next first.tag).trace env depth first.exceeded

theorem Plan.trace_ofArguments (env : Env) (callee : Name) (result : Tag) (depth : Nat)
    (arguments : List Expr) :
    ∀ (index : Nat) (tags : List Tag) (anyUndefined flag : Bool),
      (ofArguments callee result index tags anyUndefined arguments).trace env depth flag =
        traceArguments env tags depth flag arguments := by
  induction arguments with
  | nil =>
    intro index tags anyUndefined flag
    rw [traceArguments]
    rfl
  | cons argument rest ih =>
    intro index tags anyUndefined flag
    rw [traceArguments]
    simp only [ofArguments, Plan.trace, ih]

theorem Expr.trace_of_limit_le {env : Env} {depth : Nat} (h : env.limit ≤ depth) (e : Expr)
    (expected : Option Tag) (exceeded : Bool) :
    e.trace env expected depth exceeded = [.enter e depth, .leave e .undefined] := by
  have htag : (e.resolve env expected depth exceeded).tag = .undefined := by
    rw [Expr.resolve_of_limit_le h]
    rfl
  cases e <;> rw [Expr.trace, if_pos h, htag] <;> rfl

/-- Below the limit a walk follows the plan of the node. -/
theorem Expr.trace_of_lt {env : Env} {depth : Nat} (h : depth < env.limit) (e : Expr)
    (expected : Option Tag) (flag : Bool) :
    e.trace env expected depth flag =
      .enter e depth :: (e.plan env.scopes expected).trace env (depth + 1) flag ++
        [.leave e ((e.plan env.scopes expected).run (env.resolver (depth + 1)) flag).tag] := by
  rw [← Expr.resolve_of_lt h]
  have hdeep : ¬env.limit ≤ depth := Nat.not_le.2 h
  cases e <;>
    rw [Expr.trace, if_neg hdeep] <;>
    simp [Expr.plan, Plan.conclude, Plan.trace, Plan.trace_ofArguments]

/-! ## The steps of a walk -/

theorem Log.record_record (log : Log) (first second : List Finding) :
    (log.record first).record second = log.record (first ++ second) := by
  simp [Log.record, Log.append, List.append_assoc]

theorem Log.record_eq_self_iff (log : Log) (findings : List Finding) :
    log.record findings = log ↔ findings = [] := by
  cases log with
  | mk diagnostics => simp [Log.record, Log.append]

namespace Walker

/-- What the walker resolves against. -/
def env (w : Walker) : Env :=
  ⟨w.scopes, w.limit.toNat⟩

/-- The walker as the starting point of a resolution. -/
def context (w : Walker) : Context :=
  ⟨w.scopes, w.limit.toNat, w.expected, w.depth.toNat, w.exceeded, w.log⟩

/-- The walker after some findings and events, with all else as before. -/
def after (w : Walker) (exceeded : Bool) (findings : List Finding) (events : List Event) : Walker :=
  { w with
    exceeded := exceeded
    log := w.log.record findings
    trace := w.trace ++ events }

section

variable (w : Walker) (exceeded : Bool) (findings : List Finding) (events : List Event)

@[simp]
theorem after_limit : (w.after exceeded findings events).limit = w.limit := rfl

@[simp]
theorem after_depth : (w.after exceeded findings events).depth = w.depth := rfl

@[simp]
theorem after_exceeded : (w.after exceeded findings events).exceeded = exceeded := rfl

@[simp]
theorem after_env : (w.after exceeded findings events).env = w.env := rfl

end

theorem after_nil (w : Walker) : w.after w.exceeded [] [] = w := by
  simp [after, Log.record, Log.append]

theorem after_after (w : Walker) (exceeded exceeded' : Bool) (findings findings' : List Finding)
    (events events' : List Event) :
    (w.after exceeded findings events).after exceeded' findings' events' =
      w.after exceeded' (findings ++ findings') (events ++ events') := by
  simp [after, Log.record_record, List.append_assoc]

end Walker

namespace Walk

theorem bind_apply {α β : Type} (x : Walk α) (f : α → Walk β) (w : Walker) :
    (x >>= f) w = (x w).bind fun p => f p.1 p.2 := rfl

theorem pure_apply {α : Type} (a : α) (w : Walker) : (pure a : Walk α) w = some (a, w) := rfl

theorem get_apply (w : Walker) : (get : Walk Walker) w = some (w, w) := rfl

theorem set_apply (v w : Walker) : (set v : Walk PUnit) w = some ((), v) := rfl

theorem note_apply (event : Event) (w : Walker) :
    note event w = some ((), w.after w.exceeded [] [event]) := by
  simp [note, Walker.after, Log.record, Log.append]

theorem report_apply (findings : List Finding) (w : Walker) :
    report findings w = some ((), w.after w.exceeded findings []) := by
  simp [report, Walker.after]

/-- A part that changes only what is reported leaves its walker so under an expectation. -/
theorem under_apply {expected : Option Tag} {part : Walk Tag} {w : Walker} {tag : Tag}
    {exceeded : Bool} {findings : List Finding} {events : List Event}
    (h : part { w with expected := expected } =
      some (tag, Walker.after { w with expected := expected } exceeded findings events)) :
    under expected part w = some (tag, w.after exceeded findings events) := by
  unfold under
  simp only [bind_apply, get_apply, Option.bind_some]
  show ((part { w with expected := expected }).bind _) = _
  rw [h]
  rfl

theorem passOver_apply (node : Expr) (w : Walker) :
    passOver node w = some (.undefined, w.after true
      (tooDeep w.limit.toNat w.exceeded node.span).findings []) := by
  unfold passOver tooDeep
  simp only [bind_apply, get_apply, Option.bind_some]
  cases hexceeded : w.exceeded with
  | true =>
    have hsame : w.after true [] [] = w := by
      rw [← hexceeded]
      exact w.after_nil
    simp [hsame, pure_apply]
  | false =>
    simp only [Bool.false_eq_true, if_false, bind_apply, set_apply, report_apply, pure_apply,
      Option.bind_some]
    rfl

/-- At the limit a node is passed over. -/
theorem visit_of_limit_le {node : Expr} {parts : Walk Tag} {w : Walker} (h : w.limit ≤ w.depth) :
    visit node parts w = some (.undefined, w.after true
      (tooDeep w.limit.toNat w.exceeded node.span).findings
      [.enter node w.depth.toNat, .leave node .undefined]) := by
  unfold visit
  simp only [bind_apply, get_apply, Option.bind_some, note_apply, if_pos h, passOver_apply,
    pure_apply, Walker.after_after, Walker.after_limit, Walker.after_exceeded, List.append_nil,
    List.nil_append, List.cons_append]

/-- Below the limit the counter goes up for the parts, and it comes back. -/
theorem visit_of_lt {node : Expr} {parts : Walk Tag} {w : Walker} {tag : Tag} {exceeded : Bool}
    {findings : List Finding} {events : List Event} (h : w.depth < w.limit)
    (hparts : ∀ v : Walker, v.env = w.env → v.expected = w.expected →
      v.depth.toNat = w.depth.toNat + 1 → v.exceeded = w.exceeded →
      parts v = some (tag, v.after exceeded findings events)) :
    visit node parts w = some (tag, w.after exceeded findings
      (.enter node w.depth.toNat :: events ++ [.leave node tag])) := by
  have hroom : w.depth.toNat + 1 < UInt64.size := by
    have hlimit := w.limit.toNat_lt_size
    rw [UInt64.lt_iff_toNat_lt] at h
    omega
  have hcount : (w.depth + 1).toNat = w.depth.toNat + 1 := by
    rw [UInt64.toNat_add]
    exact Nat.mod_eq_of_lt hroom
  have hpos : ¬w.depth + 1 = 0 := by
    intro hzero
    rw [hzero] at hcount
    contradiction
  let v : Walker :=
    { w.after w.exceeded [] [.enter node w.depth.toNat] with depth := w.depth + 1 }
  have hdescend : descend (w.after w.exceeded [] [.enter node w.depth.toNat]) = some ((), v) :=
    if_pos hroom
  have hascend : ascend (v.after exceeded findings events) =
      some ((), w.after exceeded findings (.enter node w.depth.toNat :: events)) := by
    unfold ascend
    rw [Walker.after_depth, if_neg hpos]
    simp [v, Walker.after, Log.record_record]
  unfold visit deeper
  simp only [bind_apply, get_apply, Option.bind_some, note_apply, if_neg (UInt64.not_le.2 h),
    hdescend, hparts v rfl rfl hcount rfl, hascend, pure_apply, Walker.after_after,
    Walker.after_exceeded, List.append_nil]

end Walk

/-! ## Walks resolve -/

/-- To walk over an expression is to resolve it: the walk does not fail, it finds what the
resolution finds, and it sets expectation and depth back. -/
def Expr.Walks (e : Expr) : Prop :=
  ∀ w : Walker, e.walk w =
    some ((e.resolve w.env w.expected w.depth.toNat w.exceeded).tag,
      w.after (e.resolve w.env w.expected w.depth.toNat w.exceeded).exceeded
        (e.resolve w.env w.expected w.depth.toNat w.exceeded).findings
        (e.trace w.env w.expected w.depth.toNat w.exceeded))

theorem Expr.Walks.under {e : Expr} (h : e.Walks) (expected : Option Tag) (w : Walker) :
    Walk.under expected e.walk w =
      some ((e.resolve w.env expected w.depth.toNat w.exceeded).tag,
        w.after (e.resolve w.env expected w.depth.toNat w.exceeded).exceeded
          (e.resolve w.env expected w.depth.toNat w.exceeded).findings
          (e.trace w.env expected w.depth.toNat w.exceeded)) :=
  Walk.under_apply (h { w with expected := expected })

/-- Carries out a plan on a walk. -/
def Plan.walk : Plan → Walk Tag
  | done tag => pure tag
  | report _ findings next => do
    Walk.report findings
    next.walk
  | part e expected next => do
    let tag ← Walk.under expected e.walk
    (next tag).walk

theorem Plan.walk_ofArguments (callee : Name) (result : Tag) (arguments : List Expr) :
    ∀ (index : Nat) (tags : List Tag) (anyUndefined : Bool),
      (ofArguments callee result index tags anyUndefined arguments).walk = do
        let others ← walkArguments callee index tags arguments
        return if anyUndefined || others then .undefined else result := by
  induction arguments with
  | nil =>
    intro index tags anyUndefined
    rw [walkArguments]
    simp [ofArguments, Plan.walk]
  | cons argument rest ih =>
    intro index tags anyUndefined
    rw [walkArguments]
    simp only [ofArguments, Plan.walk, ih, bind_assoc, pure_bind, Bool.or_assoc]

/-- A walk visits a node and carries out its plan. -/
theorem Expr.walk_eq (e : Expr) :
    e.walk = Walk.visit e fun w => (e.plan w.scopes w.expected).walk w := by
  cases e with
  | call callee arguments span =>
    rw [Expr.walk]
    simp only [Expr.plan, Plan.walk, Plan.walk_ofArguments, Bool.false_or]
    rfl
  | _ =>
    rw [Expr.walk]
    rfl

/-- The walk of a plan, if parts are resolved by walks.  Each part is walked from where the part
before it left the walker. -/
theorem Plan.Through.walk_apply {plan : Plan} {parts : List Expr} (h : plan.Through parts)
    (hparts : ∀ part ∈ parts, part.Walks) (w : Walker) :
    plan.walk w =
      some ((plan.run (w.env.resolver w.depth.toNat) w.exceeded).tag,
        w.after (plan.run (w.env.resolver w.depth.toNat) w.exceeded).exceeded
          (plan.run (w.env.resolver w.depth.toNat) w.exceeded).findings
          (plan.trace w.env w.depth.toNat w.exceeded)) := by
  induction h generalizing w with
  | done => exact congrArg (fun w => some (_, w)) w.after_nil.symm
  | report _ ih =>
    simp only [Plan.walk, Walk.bind_apply, Walk.report_apply, Option.bind_some, ih hparts,
      Walker.after_after, Walker.after_depth, Walker.after_exceeded, Walker.after_env,
      List.nil_append]
    rfl
  | part _ ih =>
    obtain ⟨hfirst, hrest⟩ := List.forall_mem_cons.1 hparts
    simp only [Plan.walk, Walk.bind_apply, hfirst.under, Option.bind_some, ih _ hrest,
      Walker.after_after, Walker.after_depth, Walker.after_exceeded, Walker.after_env]
    rfl

/-- Every expression is resolved by a walk.  The induction is on the expression. -/
theorem Expr.walks (e : Expr) : e.Walks := by
  induction e using Expr.induction_parts with
  | h e ih =>
    intro w
    rw [Expr.walk_eq]
    by_cases hdeep : w.limit ≤ w.depth
    · have hlimit : w.env.limit ≤ w.depth.toNat := UInt64.le_iff_toNat_le.1 hdeep
      rw [Expr.resolve_of_limit_le hlimit, Expr.trace_of_limit_le hlimit]
      exact Walk.visit_of_limit_le hdeep
    · have hlt : w.depth < w.limit := UInt64.not_le.1 hdeep
      have hdepth : w.depth.toNat < w.env.limit := UInt64.lt_iff_toNat_lt.1 hlt
      rw [Expr.resolve_of_lt hdepth, Expr.trace_of_lt hdepth]
      apply Walk.visit_of_lt hlt
      intro v henv hexpected hlevel hexceeded
      rw [← henv, ← hexpected, ← hlevel, ← hexceeded]
      exact (e.plan_through _ _).walk_apply ih v

/-! ## Where a walk comes to -/

/-- The nodes that lie so many levels below the root, from left to right. -/
def Expr.atLevel : Nat → Expr → List Expr
  | 0, e => [e]
  | level + 1, e => e.parts.flatMap (atLevel level)

/-- A node of an expression that starts at some depth, and the depth of that node.  Below
the root, the depth is within the limit. -/
def Expr.Reaches (limit depth : Nat) (e node : Expr) (reached : Nat) : Prop :=
  ∃ level, node ∈ e.atLevel level ∧ reached = depth + level ∧ (level = 0 ∨ reached ≤ limit)

/-- The nodes of an expression down to so many levels below the root, with their depths.  A
node comes before its parts, and the parts come from left to right. -/
def Expr.preorder : Nat → Nat → Expr → List (Expr × Nat)
  | 0, depth, e => [(e, depth)]
  | levels + 1, depth, e => (e, depth) :: e.parts.flatMap (preorder levels (depth + 1))

theorem Expr.mem_preorder {levels : Nat} {node : Expr} {reached : Nat} :
    ∀ {depth : Nat} {e : Expr}, (node, reached) ∈ e.preorder levels depth ↔
      ∃ level ≤ levels, node ∈ e.atLevel level ∧ reached = depth + level := by
  induction levels with
  | zero =>
    intro depth e
    simp [Expr.preorder, Expr.atLevel]
  | succ levels ih =>
    intro depth e
    simp only [Expr.preorder, List.mem_cons, Prod.mk.injEq, List.mem_flatMap, ih]
    constructor
    · rintro (⟨rfl, rfl⟩ | ⟨part, hpart, level, hlevel, hnode, rfl⟩)
      · exact ⟨0, by omega, List.mem_singleton_self _, rfl⟩
      · refine ⟨level + 1, by omega, ?_, by omega⟩
        rw [Expr.atLevel]
        exact List.mem_flatMap.2 ⟨part, hpart, hnode⟩
    · rintro ⟨level, hlevel, hnode, rfl⟩
      cases level with
      | zero => exact .inl ⟨List.mem_singleton.1 hnode, rfl⟩
      | succ level =>
        rw [Expr.atLevel] at hnode
        obtain ⟨part, hpart, hnode⟩ := List.mem_flatMap.1 hnode
        exact .inr ⟨part, hpart, level, by omega, hnode, by omega⟩

/-- The node to which a walk comes, and its depth. -/
def Event.entered? : Event → Option (Expr × Nat)
  | enter node depth => some (node, depth)
  | leave _ _ => none

theorem entered_node (e : Expr) (depth : Nat) (tag : Tag) (events : List Event) :
    List.filterMap Event.entered? (.enter e depth :: events ++ [.leave e tag]) =
      (e, depth) :: events.filterMap Event.entered? := by
  simp [Event.entered?]

theorem Plan.Through.entered {plan : Plan} {parts : List Expr} (h : plan.Through parts) {env : Env}
    {depth : Nat}
    (hparts : ∀ part ∈ parts, ∀ expected flag,
      (part.trace env expected depth flag).filterMap Event.entered? =
        part.preorder (env.limit - depth) depth) (flag : Bool) :
    (plan.trace env depth flag).filterMap Event.entered? =
      parts.flatMap (Expr.preorder (env.limit - depth) depth) := by
  induction h generalizing flag with
  | done => rfl
  | report _ ih => exact ih hparts flag
  | part _ ih =>
    obtain ⟨hfirst, hrest⟩ := List.forall_mem_cons.1 hparts
    rw [Plan.trace, List.filterMap_append, hfirst, ih _ hrest, List.flatMap_cons]

/-- A walk comes to the nodes down to the limit in preorder, whatever is found on the way. -/
theorem Expr.entered_trace (env : Env) (e : Expr) :
    ∀ (expected : Option Tag) (depth : Nat) (flag : Bool),
      (e.trace env expected depth flag).filterMap Event.entered? =
        e.preorder (env.limit - depth) depth := by
  induction e using Expr.induction_parts with
  | h e ih =>
    intro expected depth flag
    rcases Nat.lt_or_ge depth env.limit with hdepth | hdeep
    · have hlevels : env.limit - depth = env.limit - (depth + 1) + 1 := by omega
      have hplan := (e.plan_through env.scopes expected).entered
        (fun part hpart expected => ih part hpart expected (depth + 1)) flag
      rw [Expr.trace_of_lt hdepth, entered_node, hplan, hlevels, Expr.preorder]
    · rw [Expr.trace_of_limit_le hdeep, Nat.sub_eq_zero_of_le hdeep]
      rfl

/-- A walk comes exactly to the nodes that are not deeper than the limit. -/
theorem Expr.enter_mem_trace (env : Env) (e : Expr) (expected : Option Tag) (depth : Nat)
    (flag : Bool) {node : Expr} {reached : Nat} :
    .enter node reached ∈ e.trace env expected depth flag ↔
      e.Reaches env.limit depth node reached := by
  have hentered : .enter node reached ∈ e.trace env expected depth flag ↔
      (node, reached) ∈ (e.trace env expected depth flag).filterMap Event.entered? := by
    rw [List.mem_filterMap]
    constructor
    · intro hmem
      exact ⟨_, hmem, rfl⟩
    · rintro ⟨event, hmem, hevent⟩
      cases event with
      | leave other tag => contradiction
      | enter other depth =>
        cases hevent
        exact hmem
  rw [hentered, Expr.entered_trace, Expr.mem_preorder]
  apply exists_congr
  intro level
  constructor
  · rintro ⟨hlevel, hnode, hreached⟩
    exact ⟨hnode, hreached, by omega⟩
  · rintro ⟨hnode, hreached, hwithin⟩
    exact ⟨by omega, hnode, hreached⟩

/-! ## What a walk leaves -/

/-- Every node that is come to is left. -/
def Closed (events : List Event) : Prop :=
  ∀ node reached, .enter node reached ∈ events → ∃ tag, .leave node tag ∈ events

theorem Closed.nil : Closed [] := by
  intro node reached hmem
  contradiction

theorem Closed.append {first second : List Event} (hfirst : Closed first)
    (hsecond : Closed second) : Closed (first ++ second) := by
  intro node reached hmem
  rcases List.mem_append.1 hmem with hmem | hmem
  · obtain ⟨tag, hleave⟩ := hfirst node reached hmem
    exact ⟨tag, List.mem_append_left _ hleave⟩
  · obtain ⟨tag, hleave⟩ := hsecond node reached hmem
    exact ⟨tag, List.mem_append_right _ hleave⟩

theorem Closed.node {events : List Event} (h : Closed events) (e : Expr) (depth : Nat)
    (tag : Tag) : Closed (.enter e depth :: events ++ [.leave e tag]) := by
  intro node reached hmem
  simp only [List.cons_append, List.mem_cons, List.mem_append, List.not_mem_nil, or_false,
    reduceCtorEq, Event.enter.injEq] at hmem ⊢
  rcases hmem with ⟨rfl, rfl⟩ | hmem
  · exact ⟨tag, .inr (.inr rfl)⟩
  · obtain ⟨found, hleave⟩ := h node reached hmem
    exact ⟨found, .inr (.inl hleave)⟩

theorem Plan.Through.closed {plan : Plan} {parts : List Expr} (h : plan.Through parts) {env : Env}
    {depth : Nat}
    (hparts : ∀ part ∈ parts, ∀ expected flag, Closed (part.trace env expected depth flag))
    (flag : Bool) : Closed (plan.trace env depth flag) := by
  induction h generalizing flag with
  | done => exact .nil
  | report _ ih => exact ih hparts flag
  | part _ ih =>
    obtain ⟨hfirst, hrest⟩ := List.forall_mem_cons.1 hparts
    exact (hfirst _ flag).append (ih _ hrest _)

/-- A walk leaves all nodes that it comes to. -/
theorem Expr.closed_trace (env : Env) (e : Expr) :
    ∀ (expected : Option Tag) (depth : Nat) (flag : Bool),
      Closed (e.trace env expected depth flag) := by
  induction e using Expr.induction_parts with
  | h e ih =>
    intro expected depth flag
    rcases Nat.lt_or_ge depth env.limit with hdepth | hdeep
    · rw [Expr.trace_of_lt hdepth]
      exact ((e.plan_through env.scopes expected).closed
        (fun part hpart expected => ih part hpart expected (depth + 1)) flag).node e depth _
    · rw [Expr.trace_of_limit_le hdeep]
      exact Closed.nil.node e depth .undefined

end TagLang
