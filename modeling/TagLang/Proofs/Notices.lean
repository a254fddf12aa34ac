import Mathlib.Data.List.Perm.Subperm
import TagLang.Proofs.Spots

/-!
# Which node reports what

A resolution reports on the way, and a tree can be resolved with many errors at once.  This
module says to which spot each finding belongs, and that no spot has two.

* `Expr.notices` is the resolution once more, where each finding comes with its spot.
  `Expr.findings_notices` says that the findings are those of the resolution.
* `Expr.spots_notices` is the law: the spots of the notices are among the spots of the
  expression, none of them twice.  It rests on `Expr.plan_spends`: a plan reports at most once
  about its node, and about each argument.  A conditional does not report both a bad condition
  and bad branches.
* `Expr.mem_notices` says where a notice comes from, and `Expr.fits_notices` follows: the
  finding is one that its node makes, and the node is visited.
* `resolve_reports_once_per_spot` is the result.
-/

namespace TagLang

/-! ## Notices -/

/-- A finding and the spot that it belongs to. -/
structure Notice where
  spot : Spot
  finding : Finding
  deriving DecidableEq, Repr

/-- A notice on a part, seen from the whole. -/
def Notice.below (turn : Nat) (notice : Notice) : Notice :=
  { notice with spot := notice.spot.below turn }

/-- Findings that belong to one spot. -/
def noticesAt (spot : Spot) (findings : List Finding) : List Notice :=
  findings.map (Notice.mk spot)

mutual

/-- Resolves an expression, and notes to which node each finding belongs. -/
def Expr.notices (env : Env) (expected : Option Tag) (depth : Nat) (exceeded : Bool) (e : Expr) :
    List Notice :=
  if env.limit ≤ depth then noticesAt .root (tooDeep env.limit exceeded e.span).findings
  else
    match e with
    | .literal _ _ => []
    | .var name _ => noticesAt .root (resolveName env.scopes name).findings
    | .call callee arguments span =>
      noticesAt .root (checkCallee env.scopes callee arguments.length span) ++
        noticesOfArguments env callee 0 (parameterTags env.scopes callee) (depth + 1) exceeded
          arguments
    | .unary op operand span =>
      let inner := operand.resolve env none (depth + 1) exceeded
      (operand.notices env none (depth + 1) exceeded).map (.below 0) ++
        noticesAt .root (resolveUnary op inner.tag operand.span span).findings
    | .binary op left right span =>
      let first := left.resolve env none (depth + 1) exceeded
      let second := right.resolve env none (depth + 1) first.exceeded
      (left.notices env none (depth + 1) exceeded).map (.below 0) ++
        (right.notices env none (depth + 1) first.exceeded).map (.below 1) ++
        noticesAt .root
          (resolveBinary op first.tag second.tag left.span right.span span).findings
    | .conditional condition consequent alternative _ =>
      let decision := condition.resolve env (some .bool) (depth + 1) exceeded
      let first := consequent.resolve env expected (depth + 1) decision.exceeded
      let second := alternative.resolve env expected (depth + 1) first.exceeded
      let verdict := if decides decision.tag then
          resolveBranches expected first.tag second.tag consequent.span alternative.span
        else ⟨.undefined, []⟩
      (condition.notices env (some .bool) (depth + 1) exceeded).map (.below 0) ++
        noticesAt .root (checkCondition decision.tag condition.span) ++
        (consequent.notices env expected (depth + 1) decision.exceeded).map (.below 1) ++
        (alternative.notices env expected (depth + 1) first.exceeded).map (.below 2) ++
        noticesAt .root verdict.findings

/-- The same for the arguments of a call, from number `index` on. -/
def noticesOfArguments (env : Env) (callee : Name) (index : Nat) (tags : List Tag) (depth : Nat)
    (exceeded : Bool) : List Expr → List Notice
  | [] => []
  | argument :: rest =>
    let first := argument.resolve env tags.head? depth exceeded
    (argument.notices env tags.head? depth exceeded).map (.below index) ++
      noticesAt ⟨[], some index⟩
        (checkArgument callee index tags.head? first.tag argument.span) ++
      noticesOfArguments env callee (index + 1) tags.tail depth first.exceeded rest

end

/-- The notices of a resolution from a starting point on. -/
def Context.notices (context : Context) (e : Expr) : List Notice :=
  e.notices ⟨context.scopes, context.limit⟩ context.expected context.depth context.exceeded

/-! ## The findings of the notices -/

@[simp]
theorem findings_noticesAt (spot : Spot) (findings : List Finding) :
    (noticesAt spot findings).map Notice.finding = findings := by
  unfold noticesAt
  rw [List.map_map]
  exact List.map_id findings

@[simp]
theorem findings_below (turn : Nat) (notices : List Notice) :
    (notices.map (.below turn)).map Notice.finding = notices.map Notice.finding := by
  rw [List.map_map]
  rfl

theorem Expr.notices_of_limit_le {env : Env} {depth : Nat} (h : env.limit ≤ depth) (e : Expr)
    (expected : Option Tag) (flag : Bool) :
    e.notices env expected depth flag =
      noticesAt .root (tooDeep env.limit flag e.span).findings := by
  cases e <;> rw [Expr.notices, if_pos h]

/-- The notices of a plan, whose parts are numbered from `turn` on. -/
def Plan.notices (env : Env) (depth : Nat) : (turn : Nat) → Plan → Bool → List Notice
  | _, done _, _ => []
  | turn, report argument findings next, flag =>
    noticesAt ⟨[], argument⟩ findings ++ next.notices env depth turn flag
  | turn, part e expected next, flag =>
    let first := e.resolve env expected depth flag
    (e.notices env expected depth flag).map (.below turn) ++
      (next first.tag).notices env depth (turn + 1) first.exceeded

theorem Plan.notices_ofArguments (env : Env) (callee : Name) (result : Tag) (depth : Nat)
    (arguments : List Expr) :
    ∀ (index : Nat) (tags : List Tag) (anyUndefined flag : Bool),
      (ofArguments callee result index tags anyUndefined arguments).notices env depth index flag =
        noticesOfArguments env callee index tags depth flag arguments := by
  induction arguments with
  | nil =>
    intro index tags anyUndefined flag
    rw [noticesOfArguments]
    rfl
  | cons argument rest ih =>
    intro index tags anyUndefined flag
    rw [noticesOfArguments]
    simp only [ofArguments, notices, ih, List.append_assoc]

/-- Below the limit the notices are those of the plan. -/
theorem Expr.notices_of_lt {env : Env} {depth : Nat} (h : depth < env.limit) (e : Expr)
    (expected : Option Tag) (flag : Bool) :
    e.notices env expected depth flag =
      (e.plan env.scopes expected).notices env (depth + 1) 0 flag := by
  have hdeep : ¬env.limit ≤ depth := Nat.not_le.2 h
  cases e with
  | literal value span =>
    rw [Expr.notices, if_neg hdeep]
    rfl
  | call callee arguments span =>
    rw [Expr.notices, if_neg hdeep, ← Plan.notices_ofArguments]
    rfl
  | _ =>
    rw [Expr.notices, if_neg hdeep]
    simp only [Expr.plan, Plan.conclude, Plan.notices, List.append_assoc, List.append_nil]
    rfl

theorem Plan.Through.findings_notices {plan : Plan} {parts : List Expr} (h : plan.Through parts)
    {env : Env} {depth : Nat}
    (hparts : ∀ part ∈ parts, ∀ expected flag,
      (part.notices env expected depth flag).map Notice.finding =
        (part.resolve env expected depth flag).findings) (turn : Nat) (flag : Bool) :
    (plan.notices env depth turn flag).map Notice.finding =
      (plan.run (env.resolver depth) flag).findings := by
  induction h generalizing turn flag with
  | done => rfl
  | report _ ih => rw [Plan.notices, List.map_append, findings_noticesAt, ih hparts, Plan.run]
  | part _ ih =>
    obtain ⟨hfirst, hrest⟩ := List.forall_mem_cons.1 hparts
    rw [Plan.notices, List.map_append, findings_below, hfirst, ih _ hrest]
    rfl

/-- The notices hold the findings of the resolution, in the same order. -/
theorem Expr.findings_notices (env : Env) (e : Expr) :
    ∀ (expected : Option Tag) (depth : Nat) (flag : Bool),
      (e.notices env expected depth flag).map Notice.finding =
        (e.resolve env expected depth flag).findings := by
  induction e using Expr.induction_parts with
  | h e ih =>
    intro expected depth flag
    rcases Nat.lt_or_ge depth env.limit with hdepth | hdeep
    · rw [Expr.notices_of_lt hdepth, Expr.resolve_of_lt hdepth]
      exact (e.plan_through _ _).findings_notices
        (fun part hpart expected => ih part hpart expected (depth + 1)) 0 flag
    · rw [Expr.notices_of_limit_le hdeep, Expr.resolve_of_limit_le hdeep, findings_noticesAt]

/-! ## No spot twice -/

section

variable {scopes : Scopes} {name : Name} {given index : Nat} {expected : Option Tag}
  {found left right : Tag} {op : UnaryOp} {binary : BinaryOp} {place place' whole : Span}

theorem resolveName_length_le : (resolveName scopes name).findings.length ≤ 1 := by
  unfold resolveName
  split <;> simp

theorem checkCallee_length_le : (checkCallee scopes name given whole).length ≤ 1 := by
  unfold checkCallee
  split
  · split <;> simp
  · simp
  · simp

theorem checkArgument_length_le :
    (checkArgument name index expected found place).length ≤ 1 := by
  unfold checkArgument
  split
  · simp
  · split <;> simp

theorem resolveUnary_length_le : (resolveUnary op found place whole).findings.length ≤ 1 := by
  unfold resolveUnary
  split
  · simp
  · split <;> simp

/-- At most one operand is blamed. -/
theorem resolveBinary_length_le :
    (resolveBinary binary left right place place' whole).findings.length ≤ 1 := by
  unfold resolveBinary
  dsimp only
  split
  · simp
  · split
    · simp
    · split
      · simp
      · split <;> simp

theorem checkCondition_length_le : (checkCondition found place).length ≤ 1 := by
  unfold checkCondition
  split <;> simp

theorem tooDeep_length_le {limit : Nat} {flag : Bool} :
    (tooDeep limit flag place).findings.length ≤ 1 := by
  cases flag <;> simp [tooDeep]

end

theorem spots_noticesAt (spot : Spot) (findings : List Finding) :
    (noticesAt spot findings).map Notice.spot = List.replicate findings.length spot := by
  unfold noticesAt
  rw [List.map_map]
  exact List.map_const

theorem replicate_subperm_singleton {count : Nat} (h : count ≤ 1) (spot : Spot) :
    (List.replicate count spot).Subperm [spot] :=
  ((List.replicate_sublist_replicate spot).2 h).subperm

/-- The spots of a part, seen from the whole. -/
theorem spots_below {notices : List Notice} {spots : List Spot}
    (h : (notices.map Notice.spot).Subperm spots) (turn : Nat) :
    ((notices.map (.below turn)).map Notice.spot).Subperm (spots.map (.below turn)) := by
  have hbelow := (List.map_subperm_map_iff (Spot.below_injective turn)).2 h
  rw [List.map_map] at hbelow ⊢
  exact hbelow

/-- The plan reports at most once about each of these spots of its node, and about no other
one, whatever the tags of the parts are. -/
inductive Plan.Spends : Plan → List Spot → Prop where
  | done {tag : Tag} {spots : List Spot} : Spends (.done tag) spots
  | report {argument : Option Nat} {findings : List Finding} {next : Plan}
      {spots rest : List Spot} (hnext : Spends next rest)
      (hspots : (List.replicate findings.length (Spot.mk [] argument) ++ rest).Subperm spots) :
      Spends (.report argument findings next) spots
  | part {e : Expr} {expected : Option Tag} {next : Tag → Plan} {spots : List Spot}
      (hnext : ∀ tag, Spends (next tag) spots) : Spends (.part e expected next) spots

/-- One finding takes its spot from the rest of the plan. -/
theorem Plan.Spends.once {argument : Option Nat} {findings : List Finding} {next : Plan}
    {rest : List Spot} (h : findings.length ≤ 1) (hnext : next.Spends rest) :
    (Plan.report argument findings next).Spends (⟨[], argument⟩ :: rest) :=
  .report hnext ((replicate_subperm_singleton h _).append (.refl rest))

theorem Plan.Spends.conclude {verdict : Verdict} (h : verdict.findings.length ≤ 1) :
    (conclude verdict).Spends [.root] :=
  .once h .done

theorem Plan.Spends.ofArguments (callee : Name) (result : Tag) (arguments : List Expr) :
    ∀ (index : Nat) (tags : List Tag) (anyUndefined : Bool),
      (ofArguments callee result index tags anyUndefined arguments).Spends
        (argumentSpots index arguments) := by
  induction arguments with
  | nil => exact fun _ _ _ => .done
  | cons argument rest ih =>
    exact fun _ _ _ => .part fun _ => .once checkArgument_length_le (ih _ _ _)

/-- A node reports at most once about itself, and about each of its arguments. -/
theorem Expr.plan_spends (scopes : Scopes) (expected : Option Tag) (e : Expr) :
    (e.plan scopes expected).Spends (.root :: argumentSpots 0 e.arguments) := by
  cases e with
  | literal value span => exact .done
  | var name span => exact .conclude resolveName_length_le
  | call callee arguments span =>
    exact .once checkCallee_length_le (.ofArguments _ _ _ _ _ _)
  | unary op operand span => exact .part fun _ => .conclude resolveUnary_length_le
  | binary op left right span =>
    exact .part fun _ => .part fun _ => .conclude resolveBinary_length_le
  | conditional condition consequent alternative span =>
    refine .part fun found => ?_
    -- Where the condition is reported, the branches are not compared.
    by_cases hdecides : decides found = true
    · rw [checkCondition_of_decides hdecides]
      refine .report (.part fun _ => .part fun _ => .conclude ?_) (.refl _)
      rw [if_pos hdecides]
      exact resolveBranches_length_le
    · refine .once checkCondition_length_le (.part fun _ => .part fun _ => ?_)
      rw [if_neg hdecides]
      exact .report .done (.refl _)

theorem Plan.Through.spots_notices {plan : Plan} {parts : List Expr} (h : plan.Through parts)
    {spots : List Spot} (hspends : plan.Spends spots) {env : Env} {depth : Nat}
    (hparts : ∀ part ∈ parts, ∀ expected flag,
      ((part.notices env expected depth flag).map Notice.spot).Subperm part.spots)
    (turn : Nat) (flag : Bool) :
    ((plan.notices env depth turn flag).map Notice.spot).Subperm
      (spots ++ spotsOfParts turn parts) := by
  induction h generalizing spots turn flag with
  | done => exact List.nil_subperm
  | report _ ih =>
    cases hspends with
    | report hnext hspots =>
      rw [Plan.notices, List.map_append, spots_noticesAt]
      refine ((List.Subperm.refl _).append (ih hnext hparts turn flag)).trans ?_
      rw [← List.append_assoc]
      exact hspots.append (.refl _)
  | @part e expected next rest _ ih =>
    cases hspends with
    | part hnext =>
      obtain ⟨hfirst, hothers⟩ := List.forall_mem_cons.1 hparts
      rw [Plan.notices, List.map_append, spotsOfParts]
      have hpart := spots_below (hfirst expected flag) turn
      -- The spots of the plan's own reports come first.
      refine (List.perm_append_comm_assoc _ _ _).subperm_left.1 (hpart.append ?_)
      exact ih _ (hnext _) hothers (turn + 1) _

/-- The spots of the notices are spots of the expression, and none of them is there twice. -/
theorem Expr.spots_notices (env : Env) (e : Expr) :
    ∀ (expected : Option Tag) (depth : Nat) (flag : Bool),
      ((e.notices env expected depth flag).map Notice.spot).Subperm e.spots := by
  induction e using Expr.induction_parts with
  | h e ih =>
    intro expected depth flag
    rw [Expr.spots_eq]
    rcases Nat.lt_or_ge depth env.limit with hdepth | hdeep
    · rw [Expr.notices_of_lt hdepth]
      exact (e.plan_through _ _).spots_notices (e.plan_spends _ _)
        (fun part hpart expected => ih part hpart expected (depth + 1)) 0 flag
    · rw [Expr.notices_of_limit_le hdeep, spots_noticesAt]
      exact (replicate_subperm_singleton tooDeep_length_le .root).trans
        (List.singleton_subperm_iff.2 List.mem_cons_self)

/-! ## What a notice says -/

/-- The findings that a node makes about itself, or about one of its arguments. -/
inductive Expr.Makes : Expr → Option Nat → Finding → Prop where
  | tooDeep {node : Expr} {limit : Nat} : Makes node none (.tooDeep limit node.span)
  | undeclared {name : Name} {span : Span} : Makes (.var name span) none (.undeclared name)
  | functionAsValue {name : Name} {span : Span} :
    Makes (.var name span) none (.functionAsValue name)
  | unknown {callee : Name} {arguments : List Expr} {span : Span} :
    Makes (.call callee arguments span) none (.undeclared callee)
  | notCallable {callee : Name} {arguments : List Expr} {span : Span} {found : Tag} :
    Makes (.call callee arguments span) none (.notCallable callee found)
  | arity {callee : Name} {arguments : List Expr} {span : Span} {expected : Nat} :
    Makes (.call callee arguments span) none
      (.arity callee.text expected arguments.length span)
  | argument {callee : Name} {arguments : List Expr} {span : Span} {index : Nat}
      {argument : Expr} {expected found : Tag} (h : arguments[index]? = some argument) :
    Makes (.call callee arguments span) (some index)
      (.argument callee.text index expected found argument.span)
  | operand {op : UnaryOp} {operand : Expr} {span : Span} {expected : String} {found : Tag} :
    Makes (.unary op operand span) none
      (.operand (.unary op) expected found operand.span span)
  | left {op : BinaryOp} {left right : Expr} {span : Span} {expected : String} {found : Tag} :
    Makes (.binary op left right span) none
      (.operand (.binary op) expected found left.span span)
  | right {op : BinaryOp} {left right : Expr} {span : Span} {expected : String} {found : Tag} :
    Makes (.binary op left right span) none
      (.operand (.binary op) expected found right.span span)
  | condition {condition consequent alternative : Expr} {span : Span} {found : Tag} :
    Makes (.conditional condition consequent alternative span) none
      (.condition found condition.span)
  | branches {condition consequent alternative : Expr} {span : Span} {first second : Tag} :
    Makes (.conditional condition consequent alternative span) none
      (.branches first second consequent.span alternative.span)

/-- The findings are made by the node about itself. -/
def Expr.MakesAll (node : Expr) (findings : List Finding) : Prop :=
  ∀ finding ∈ findings, node.Makes none finding

theorem Expr.MakesAll.nil {node : Expr} : node.MakesAll [] :=
  List.forall_mem_nil _

theorem Expr.MakesAll.single {node : Expr} {finding : Finding} (h : node.Makes none finding) :
    node.MakesAll [finding] :=
  List.forall_mem_singleton.2 h

theorem tooDeep_made (node : Expr) (limit : Nat) (flag : Bool) :
    node.MakesAll (TagLang.tooDeep limit flag node.span).findings := by
  cases flag with
  | true => exact .nil
  | false => exact .single .tooDeep

theorem resolveName_made {span : Span} (scopes : Scopes) (name : Name) :
    (Expr.var name span).MakesAll (resolveName scopes name).findings := by
  unfold resolveName
  split
  · exact .nil
  · exact .single .functionAsValue
  · exact .single .undeclared

theorem checkCallee_made (scopes : Scopes) (callee : Name) (arguments : List Expr) (span : Span) :
    (Expr.call callee arguments span).MakesAll
      (checkCallee scopes callee arguments.length span) := by
  unfold checkCallee
  split
  · split
    · exact .nil
    · exact .single .arity
  · exact .single .notCallable
  · exact .single .unknown

theorem resolveUnary_made (op : UnaryOp) (operand : Expr) (span : Span) (found : Tag) :
    (Expr.unary op operand span).MakesAll
      (resolveUnary op found operand.span span).findings := by
  unfold resolveUnary
  split
  · exact .nil
  · split
    · exact .nil
    · exact .single .operand

theorem resolveBinary_made (op : BinaryOp) (left right : Expr) (span : Span) (first second : Tag) :
    (Expr.binary op left right span).MakesAll
      (resolveBinary op first second left.span right.span span).findings := by
  unfold resolveBinary
  dsimp only
  split
  · exact .nil
  · split
    · exact .single .left
    · split
      · exact .single .right
      · split
        · exact .single .right
        · exact .nil

theorem checkCondition_made (condition consequent alternative : Expr) (span : Span) (found : Tag) :
    (Expr.conditional condition consequent alternative span).MakesAll
      (checkCondition found condition.span) := by
  unfold checkCondition
  split
  · exact .nil
  · exact .single .condition

theorem decided_made (condition consequent alternative : Expr) (span : Span)
    (expected : Option Tag) (found first second : Tag) :
    (Expr.conditional condition consequent alternative span).MakesAll
      (if decides found then
        resolveBranches expected first second consequent.span alternative.span
      else ⟨.undefined, []⟩).findings := by
  split
  · unfold resolveBranches
    dsimp only
    split
    · exact .nil
    · split
      · exact .single .branches
      · split
        · exact .nil
        · split
          · exact .nil
          · exact .single .branches
  · exact .nil

/-- Where a notice of an expression comes from: the expression itself makes it, or it is a
notice of a part.  The parts have notices only if the limit is not reached. -/
inductive Notice.From (env : Env) (depth : Nat) (e : Expr) : Notice → Prop where
  | own {argument : Option Nat} {finding : Finding} (h : e.Makes argument finding) :
    From env depth e ⟨⟨[], argument⟩, finding⟩
  | part {turn : Nat} {part : Expr} {expected : Option Tag} {flag : Bool} {notice : Notice}
      (hdepth : depth < env.limit) (hpart : e.parts[turn]? = some part)
      (hnotice : notice ∈ part.notices env expected (depth + 1) flag) :
    From env depth e (notice.below turn)

theorem checkArgument_made {callee : Name} {arguments : List Expr} {index : Nat} {argument : Expr}
    (h : arguments[index]? = some argument) (span : Span) (expected : Option Tag) (found : Tag) :
    ∀ finding ∈ checkArgument callee index expected found argument.span,
      (Expr.call callee arguments span).Makes (some index) finding := by
  unfold checkArgument
  split
  · exact List.forall_mem_nil _
  · split
    · exact List.forall_mem_nil _
    · exact List.forall_mem_singleton.2 (.argument h)

/-- What the plan of a node may report is made by the node. -/
theorem Expr.plan_made (scopes : Scopes) (expected : Option Tag) (e : Expr) :
    (e.plan scopes expected).Reports e.Makes := by
  cases e with
  | literal value span => trivial
  | var name span => exact .conclude (resolveName_made scopes name)
  | call callee arguments span =>
    refine ⟨checkCallee_made scopes callee arguments span, .ofArguments _ _ _ _ _ _ ?_⟩
    intro i argument hargument expected found
    rw [Nat.zero_add]
    exact checkArgument_made hargument span expected found
  | unary op operand span => exact fun found => .conclude (resolveUnary_made op operand span found)
  | binary op left right span =>
    exact fun first second => .conclude (resolveBinary_made op left right span first second)
  | conditional condition consequent alternative span =>
    intro found
    refine ⟨checkCondition_made condition consequent alternative span found, ?_⟩
    intro first second
    exact .conclude (decided_made condition consequent alternative span expected found first second)

/-- The notices of a plan that comes to the parts of `e` from number `turn` on. -/
theorem Plan.Through.from_notices {plan : Plan} {rest : List Expr} (h : plan.Through rest)
    {e : Expr} (hmade : plan.Reports e.Makes) {env : Env} {depth : Nat} (hdepth : depth < env.limit)
    {turn : Nat} (hparts : e.parts.drop turn = rest) {flag : Bool} :
    ∀ notice ∈ plan.notices env (depth + 1) turn flag, notice.From env depth e := by
  induction h generalizing turn flag with
  | done => exact List.forall_mem_nil _
  | report _ ih =>
    refine List.forall_mem_append.2 ⟨List.forall_mem_map.2 ?_, ih hmade.2 hparts⟩
    exact fun finding hmem => .own (hmade.1 finding hmem)
  | @part first expected next rest _ ih =>
    have hfirst : e.parts[turn]? = some first := by
      rw [← List.head?_drop, hparts, List.head?_cons]
    have hrest : e.parts.drop (turn + 1) = rest := by
      rw [← List.tail_drop, hparts, List.tail_cons]
    refine List.forall_mem_append.2 ⟨List.forall_mem_map.2 ?_, ih _ (hmade _) hrest⟩
    exact fun notice hmem => .part hdepth hfirst hmem

/-- Every notice of an expression is its own or one of a part. -/
theorem Expr.mem_notices {env : Env} {depth : Nat} (e : Expr) (expected : Option Tag)
    (flag : Bool) : ∀ notice ∈ e.notices env expected depth flag, notice.From env depth e := by
  rcases Nat.lt_or_ge depth env.limit with hdepth | hdeep
  · rw [Expr.notices_of_lt hdepth]
    exact (e.plan_through _ _).from_notices (e.plan_made _ _) hdepth rfl
  · rw [Expr.notices_of_limit_le hdeep]
    refine List.forall_mem_map.2 fun finding hmem => ?_
    exact .own (tooDeep_made e env.limit flag finding hmem)

/-- The notice is about a node of the expression that is not too deep to be visited, and it
says something that this node makes. -/
def Notice.Fits (limit depth : Nat) (e : Expr) (notice : Notice) : Prop :=
  ∃ node, e.at? notice.spot.path = some node ∧
    e.Reaches limit depth node (depth + notice.spot.path.length) ∧
    node.Makes notice.spot.argument notice.finding

/-- Every notice fits.  The induction is on the expression, and a notice of a part fits the
whole with one more turn. -/
theorem Expr.fits_notices (env : Env) (e : Expr) :
    ∀ (expected : Option Tag) (depth : Nat) (flag : Bool),
      ∀ notice ∈ e.notices env expected depth flag, notice.Fits env.limit depth e := by
  induction e using Expr.induction_parts with
  | h e ih =>
    intro expected depth flag notice hmem
    cases e.mem_notices expected flag notice hmem with
    | own hmakes => exact ⟨e, rfl, ⟨0, List.mem_singleton_self e, rfl, .inl rfl⟩, hmakes⟩
    | @part turn part expected' flag' inner hdepth hpart hinner =>
      obtain ⟨node, hat, ⟨level, -, hreached, hwithin⟩, hmakes⟩ :=
        ih part (List.mem_of_getElem? hpart) expected' (depth + 1) flag' inner hinner
      have hat' : e.at? (turn :: inner.spot.path) = some node := by
        rw [Expr.at?, hpart]
        exact hat
      refine ⟨node, hat', ⟨inner.spot.path.length + 1, Expr.mem_atLevel_of_at? hat', rfl, ?_⟩,
        hmakes⟩
      right
      show depth + (inner.spot.path.length + 1) ≤ env.limit
      omega

/-! ## Starting points -/

/-- Every node reports at most once, and so does every argument, whatever the expression and
the starting point.  What a resolution reports are its notices.  No two of them have the same
spot; each is about a node that is visited, and it is one of the findings that such a node
makes.  So there are at most as many as the expression has nodes and its calls have
arguments. -/
theorem resolve_reports_once_per_spot (context : Context) (e : Expr) :
    let notices := context.notices e
    (context.resolve e).2.log = context.log.record (notices.map Notice.finding) ∧
    (notices.map Notice.spot).Nodup ∧
    (∀ notice ∈ notices, ∃ node,
      e.at? notice.spot.path = some node ∧
      .enter node (context.depth + notice.spot.path.length) ∈ context.trace e ∧
      node.Makes notice.spot.argument notice.finding) ∧
    (context.resolve e).2.log.size ≤
      context.log.size + (e.nodes.length + e.allArguments.length) := by
  intro notices
  let env : Env := ⟨context.scopes, context.limit⟩
  have hfindings : notices.map Notice.finding =
      (e.resolve env context.expected context.depth context.exceeded).findings :=
    e.findings_notices env context.expected context.depth context.exceeded
  have hspots : (notices.map Notice.spot).Subperm e.spots :=
    e.spots_notices env context.expected context.depth context.exceeded
  have hlog : (context.resolve e).2.log = context.log.record (notices.map Notice.finding) := by
    rw [hfindings]
    rfl
  refine ⟨hlog, ?_, ?_, ?_⟩
  · obtain ⟨spots, hperm, hsublist⟩ := hspots
    exact hperm.nodup_iff.1 (e.nodup_spots.sublist hsublist)
  · intro notice hmem
    obtain ⟨node, hat, hreaches, hmakes⟩ :=
      e.fits_notices env context.expected context.depth context.exceeded notice hmem
    exact ⟨node, hat, (Expr.enter_mem_trace env e _ _ _).2 hreaches, hmakes⟩
  · have hlength := hspots.length_le
    rw [e.length_spots, List.length_map] at hlength
    rw [hlog]
    unfold Log.size Log.record Log.append
    rw [List.length_append, List.length_map, List.length_map]
    omega

end TagLang
