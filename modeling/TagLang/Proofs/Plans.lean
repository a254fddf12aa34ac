import TagLang.Resolution

/-!
# What a resolution does at a node

At the limit all nodes have the same outcome.  Below it a node resolves some of its parts one
after the other, reports something in between, and ends with a tag.  A `Plan` says this and
nothing else: it knows neither the limit nor how deep the node lies, and not whether the limit
has been reported.

* `Expr.plan` is the plan of a node.  It has a case for each kind of node.
* `Plan.run` carries out a plan, given how parts are resolved.
* `Expr.resolve_of_limit_le` and `Expr.resolve_of_lt` are the two cases of a resolution: at
  the limit, and below it, where the plan of the node is carried out.
* `Plan.Through` lists the parts that a plan comes to, and `Plan.Reports` speaks of all that it
  may report.  `Expr.plan_through`: the plan of a node comes to all parts of the node.
* `Plan.Through.run_map` compares two runs: of a plan, and of what `Plan.map` makes of it.

A law of resolutions is then an induction over expressions with `Expr.induction_parts`, and at
each node one over its plan.  Kinds of nodes come in only where it matters what they report.
-/

namespace TagLang

/-! ## Parts of an expression -/

/-- The parts of an expression, in the order in which they are resolved. -/
def Expr.parts : Expr → List Expr
  | literal _ _ => []
  | var _ _ => []
  | call _ arguments _ => arguments
  | unary _ operand _ => [operand]
  | binary _ left right _ => [left, right]
  | conditional condition consequent alternative _ => [condition, consequent, alternative]

theorem Expr.height_eq (e : Expr) : e.height = Expr.heights e.parts + 1 := by
  cases e <;> simp [Expr.height, Expr.parts, Expr.heights]

theorem Expr.height_le_heights {e : Expr} {es : List Expr} (h : e ∈ es) :
    e.height ≤ Expr.heights es := by
  induction es with
  | nil => contradiction
  | cons first rest ih =>
    rw [Expr.heights]
    rcases List.mem_cons.1 h with rfl | h
    · exact Nat.le_max_left _ _
    · exact Nat.le_trans (ih h) (Nat.le_max_right _ _)

theorem Expr.height_lt_of_mem_parts {part e : Expr} (h : part ∈ e.parts) :
    part.height < e.height := by
  rw [e.height_eq]
  exact Nat.lt_succ_of_le (Expr.height_le_heights h)

/-- What holds of an expression if it holds of its parts holds of all expressions. -/
theorem Expr.induction_parts {p : Expr → Prop} (h : ∀ e : Expr, (∀ part ∈ e.parts, p part) → p e)
    (e : Expr) : p e := by
  induction hheight : e.height using Nat.strongRecOn generalizing e with
  | ind height ih =>
    apply h e
    intro part hpart
    have hlower := Expr.height_lt_of_mem_parts hpart
    exact ih part.height (by omega) part rfl

/-! ## Plans -/

/-- What is left to do at a node. -/
inductive Plan where
  /-- The node has its tag. -/
  | done (tag : Tag)
  /-- Findings are reported, about the node or about one of its arguments. -/
  | report (argument : Option Nat) (findings : List Finding) (next : Plan)
  /-- A part is resolved under an expectation.  Its tag decides what comes next. -/
  | part (e : Expr) (expected : Option Tag) (next : Tag → Plan)

/-- How parts are resolved, by their expectation and the flag. -/
abbrev Resolver := Expr → Option Tag → Bool → Outcome

/-- The resolution of parts that lie so many levels deep. -/
def Env.resolver (env : Env) (depth : Nat) : Resolver := fun e expected flag =>
  e.resolve env expected depth flag

/-- The outcome with another flag and other findings. -/
def Outcome.map (onFlag : Bool → Bool) (onFindings : List Finding → List Finding)
    (outcome : Outcome) : Outcome :=
  ⟨outcome.tag, onFlag outcome.exceeded, onFindings outcome.findings⟩

namespace Plan

/-- Ends with a verdict on the node. -/
def conclude (verdict : Verdict) : Plan :=
  .report none verdict.findings (.done verdict.tag)

/-- The plan for the arguments of a call from number `index` on.  It remembers whether one of
them was `undefined`. -/
def ofArguments (callee : Name) (result : Tag) :
    (index : Nat) → (tags : List Tag) → (anyUndefined : Bool) → List Expr → Plan
  | _, _, anyUndefined, [] => .done (if anyUndefined then .undefined else result)
  | index, tags, anyUndefined, argument :: rest =>
    .part argument tags.head? fun found =>
      .report (some index) (checkArgument callee index tags.head? found argument.span)
        (ofArguments callee result (index + 1) tags.tail (anyUndefined || found == .undefined)
          rest)

/-- Carries out a plan.  The flag goes from each part to the next one. -/
def run (resolve : Resolver) : Plan → Bool → Outcome
  | done tag, flag => ⟨tag, flag, []⟩
  | report _ findings next, flag =>
    let rest := next.run resolve flag
    ⟨rest.tag, rest.exceeded, findings ++ rest.findings⟩
  | part e expected next, flag =>
    let first := resolve e expected flag
    let rest := (next first.tag).run resolve first.exceeded
    ⟨rest.tag, rest.exceeded, first.findings ++ rest.findings⟩

end Plan

/-- The plan of a node. -/
def Expr.plan (scopes : Scopes) (expected : Option Tag) : Expr → Plan
  | literal value _ => .done value.tag
  | var name _ => .conclude (resolveName scopes name)
  | call callee arguments span =>
    .report none (checkCallee scopes callee arguments.length span)
      (.ofArguments callee (resultTag scopes callee) 0 (parameterTags scopes callee) false
        arguments)
  | unary op operand span =>
    .part operand none fun found => .conclude (resolveUnary op found operand.span span)
  | binary op left right span =>
    .part left none fun first =>
      .part right none fun second =>
        .conclude (resolveBinary op first second left.span right.span span)
  | conditional condition consequent alternative _ =>
    .part condition (some .bool) fun found =>
      .report none (checkCondition found condition.span)
        (.part consequent expected fun first =>
          .part alternative expected fun second =>
            .conclude (if decides found then
                resolveBranches expected first second consequent.span alternative.span
              else ⟨.undefined, []⟩))

/-! ## Resolutions carry out plans -/

theorem Plan.run_ofArguments (env : Env) (callee : Name) (result : Tag) (depth : Nat)
    (arguments : List Expr) :
    ∀ (index : Nat) (tags : List Tag) (anyUndefined flag : Bool),
      let inner := resolveArguments env callee index tags depth flag arguments
      (ofArguments callee result index tags anyUndefined arguments).run (env.resolver depth) flag =
        ⟨if anyUndefined || inner.anyUndefined then .undefined else result, inner.exceeded,
          inner.findings⟩ := by
  induction arguments with
  | nil =>
    intro index tags anyUndefined flag
    rw [resolveArguments]
    simp [ofArguments, run]
  | cons argument rest ih =>
    intro index tags anyUndefined flag
    rw [resolveArguments]
    simp only [ofArguments, run, Env.resolver] at ih ⊢
    simp [ih, Bool.or_assoc]

/-- A node at the limit is not visited. -/
theorem Expr.resolve_of_limit_le {env : Env} {depth : Nat} (h : env.limit ≤ depth) (e : Expr)
    (expected : Option Tag) (exceeded : Bool) :
    e.resolve env expected depth exceeded = tooDeep env.limit exceeded e.span := by
  cases e <;> rw [Expr.resolve, if_pos h]

/-- Below the limit the plan of the node is carried out. -/
theorem Expr.resolve_of_lt {env : Env} {depth : Nat} (h : depth < env.limit) (e : Expr)
    (expected : Option Tag) (flag : Bool) :
    e.resolve env expected depth flag =
      (e.plan env.scopes expected).run (env.resolver (depth + 1)) flag := by
  have hdeep : ¬env.limit ≤ depth := Nat.not_le.2 h
  cases e with
  | literal value span =>
    rw [Expr.resolve, if_neg hdeep]
    rfl
  | var name span =>
    rw [Expr.resolve, if_neg hdeep]
    simp [Expr.plan, Plan.conclude, Plan.run]
  | call callee arguments span =>
    rw [Expr.resolve, if_neg hdeep]
    simp [Expr.plan, Plan.run, Plan.run_ofArguments]
  | unary op operand span =>
    rw [Expr.resolve, if_neg hdeep]
    simp [Expr.plan, Plan.conclude, Plan.run, Env.resolver]
  | binary op left right span =>
    rw [Expr.resolve, if_neg hdeep]
    simp [Expr.plan, Plan.conclude, Plan.run, Env.resolver]
  | conditional condition consequent alternative span =>
    rw [Expr.resolve, if_neg hdeep]
    simp only [Expr.plan, Plan.conclude, Plan.run, Env.resolver, List.append_assoc,
      List.append_nil]
    rfl

/-! ## What a plan comes to -/

namespace Plan

/-- The plan comes to these parts in this order, whatever their tags are. -/
inductive Through : Plan → List Expr → Prop where
  | done {tag : Tag} : Through (.done tag) []
  | report {argument : Option Nat} {findings : List Finding} {next : Plan} {parts : List Expr} :
      Through next parts → Through (.report argument findings next) parts
  | part {e : Expr} {expected : Option Tag} {next : Tag → Plan} {parts : List Expr} :
      (∀ tag, Through (next tag) parts) → Through (.part e expected next) (e :: parts)

theorem Through.conclude (verdict : Verdict) : Through (.conclude verdict) [] :=
  .report .done

theorem Through.ofArguments (callee : Name) (result : Tag) (arguments : List Expr) :
    ∀ (index : Nat) (tags : List Tag) (anyUndefined : Bool),
      Through (.ofArguments callee result index tags anyUndefined arguments) arguments := by
  induction arguments with
  | nil => exact fun _ _ _ => .done
  | cons argument rest ih => exact fun _ _ _ => .part fun _ => .report (ih _ _ _)

/-- Everything that the plan may report has the property. -/
def Reports (p : Option Nat → Finding → Prop) : Plan → Prop
  | done _ => True
  | report argument findings next =>
    (∀ finding ∈ findings, p argument finding) ∧ next.Reports p
  | part _ _ next => ∀ tag, (next tag).Reports p

theorem Reports.conclude {p : Option Nat → Finding → Prop} {verdict : Verdict}
    (h : ∀ finding ∈ verdict.findings, p none finding) : (conclude verdict).Reports p :=
  ⟨h, trivial⟩

theorem Reports.ofArguments {p : Option Nat → Finding → Prop} (callee : Name) (result : Tag)
    (arguments : List Expr) :
    ∀ (index : Nat) (tags : List Tag) (anyUndefined : Bool),
      (∀ i argument, arguments[i]? = some argument → ∀ expected found,
        ∀ finding ∈ checkArgument callee (index + i) expected found argument.span,
          p (some (index + i)) finding) →
      (ofArguments callee result index tags anyUndefined arguments).Reports p := by
  induction arguments with
  | nil => exact fun _ _ _ _ => trivial
  | cons argument rest ih =>
    intro index tags anyUndefined h found
    refine ⟨h 0 argument rfl _ found, ih _ _ _ ?_⟩
    intro i other hother
    rw [Nat.add_right_comm]
    exact h (i + 1) other hother

variable {plan : Plan} {parts : List Expr} {resolve resolve' : Resolver}

/-- What holds of the reports of a plan and of the findings on its parts holds of all findings. -/
theorem Through.forall_findings {p : Finding → Prop} (h : plan.Through parts)
    (hreports : plan.Reports fun _ => p)
    (hparts : ∀ part ∈ parts, ∀ expected flag, ∀ finding ∈ (resolve part expected flag).findings,
      p finding) (flag : Bool) : ∀ finding ∈ (plan.run resolve flag).findings, p finding := by
  induction h generalizing flag with
  | done => exact List.forall_mem_nil _
  | report _ ih => exact List.forall_mem_append.2 ⟨hreports.1, ih hreports.2 hparts flag⟩
  | part _ ih =>
    obtain ⟨hfirst, hrest⟩ := List.forall_mem_cons.1 hparts
    exact List.forall_mem_append.2 ⟨hfirst _ flag, ih _ (hreports _) hrest _⟩

/-- A plan has one outcome for two ways to resolve its parts, if these agree on them. -/
theorem Through.run_congr (h : plan.Through parts)
    (hparts : ∀ part ∈ parts, ∀ expected flag,
      resolve part expected flag = resolve' part expected flag) (flag : Bool) :
    plan.run resolve flag = plan.run resolve' flag := by
  induction h generalizing flag with
  | done => rfl
  | report _ ih => rw [run, run, ih hparts flag]
  | part _ ih =>
    obtain ⟨hfirst, hrest⟩ := List.forall_mem_cons.1 hparts
    rw [run, run, hfirst, ih _ hrest]

/-- A plan for the images of the parts, with other findings. -/
def map (onPart : Expr → Expr) (onFindings : List Finding → List Finding) : Plan → Plan
  | done tag => .done tag
  | report argument findings next =>
    .report argument (onFindings findings) (next.map onPart onFindings)
  | part e expected next => .part (onPart e) expected fun tag => (next tag).map onPart onFindings

/-- Where all that a plan may report stays as it is, so does the plan. -/
theorem Reports.map_eq {p : Finding → Prop} (h : plan.Reports fun _ => p)
    {onFindings : List Finding → List Finding}
    (hkept : ∀ findings, (∀ finding ∈ findings, p finding) → onFindings findings = findings) :
    plan.map id onFindings = plan := by
  induction plan with
  | done tag => rfl
  | report argument findings next ih => rw [map, hkept findings h.1, ih h.2]
  | part e expected next ih =>
    rw [map]
    congr 1
    funext tag
    exact ih tag (h tag)

/-- Two ways to resolve parts give outcomes that correspond, if they do so on each part.  The
flag and the findings may change, and findings do so one report at a time. -/
theorem Through.run_map (h : plan.Through parts) (onPart : Expr → Expr) (onFlag : Bool → Bool)
    {onFindings : List Finding → List Finding}
    (happend : ∀ first second, onFindings (first ++ second) = onFindings first ++ onFindings second)
    (hparts : ∀ part ∈ parts, ∀ expected flag, resolve' (onPart part) expected (onFlag flag) =
      (resolve part expected flag).map onFlag onFindings) (flag : Bool) :
    (plan.map onPart onFindings).run resolve' (onFlag flag) =
      (plan.run resolve flag).map onFlag onFindings := by
  induction h generalizing flag with
  | done =>
    have hnil : onFindings [] = [] := List.self_eq_append_left.1 (happend [] [])
    rw [map, run, run, Outcome.map, hnil]
  | report _ ih =>
    rw [map, run, run, ih hparts flag]
    simp only [Outcome.map, happend]
  | part _ ih =>
    obtain ⟨hfirst, hrest⟩ := List.forall_mem_cons.1 hparts
    rw [map, run, run, hfirst]
    simp only [Outcome.map] at ih ⊢
    rw [ih _ hrest]
    simp only [happend]

/-- The same for one plan, where all that it may report stays as it is. -/
theorem Through.run_kept {p : Finding → Prop} (h : plan.Through parts)
    (hreports : plan.Reports fun _ => p) (onFlag : Bool → Bool)
    {onFindings : List Finding → List Finding}
    (hkept : ∀ findings, (∀ finding ∈ findings, p finding) → onFindings findings = findings)
    (happend : ∀ first second, onFindings (first ++ second) = onFindings first ++ onFindings second)
    (hparts : ∀ part ∈ parts, ∀ expected flag, resolve' part expected (onFlag flag) =
      (resolve part expected flag).map onFlag onFindings) (flag : Bool) :
    plan.run resolve' (onFlag flag) = (plan.run resolve flag).map onFlag onFindings := by
  have hrun := h.run_map id onFlag happend hparts flag
  rwa [hreports.map_eq hkept] at hrun

end Plan

/-- The plan of a node comes to all of its parts. -/
theorem Expr.plan_through (scopes : Scopes) (expected : Option Tag) (e : Expr) :
    (e.plan scopes expected).Through e.parts := by
  cases e with
  | literal value span => exact .done
  | var name span => exact .conclude _
  | call callee arguments span => exact .report (.ofArguments _ _ _ _ _ _)
  | unary op operand span => exact .part fun _ => .conclude _
  | binary op left right span => exact .part fun _ => .part fun _ => .conclude _
  | conditional condition consequent alternative span =>
    exact .part fun _ => .report (.part fun _ => .part fun _ => .conclude _)

end TagLang
