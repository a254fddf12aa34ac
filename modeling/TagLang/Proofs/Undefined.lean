import TagLang.Proofs.Limits
import TagLang.Proofs.Walk

/-!
# Where `undefined` comes from and where it goes

The tag `undefined` stands for an error.  This module ties it to the findings of a
resolution, in both directions.

* Upwards: `Expr.undefined_of_leave`.  A part that is left with `undefined` makes the whole
  `undefined`.
* A tag that is not `undefined` means that nothing was found but wrong arguments, which a
  call survives: `Expr.onArguments_of_defined`.
* Downwards: `Expr.exists_origin`.  An `undefined` without a finding comes from a declaration
  whose tag is `undefined`, or from a limit that was reported before.

Each of the three is a property of plans, `Plan.Strict` for the first two and `Plan.Accounted`
for the third, and an induction over expressions.
-/

namespace TagLang

/-! ## Single nodes -/

/-- None of the findings is about the limit. -/
def BesidesLimit (findings : List Finding) : Prop :=
  ∀ finding ∈ findings, finding.besidesLimit = true

theorem BesidesLimit.nil : BesidesLimit [] :=
  List.forall_mem_nil _

theorem BesidesLimit.singleton {finding : Finding} (h : finding.besidesLimit = true) :
    BesidesLimit [finding] :=
  List.forall_mem_singleton.2 h

section

variable {op : UnaryOp} {binary : BinaryOp} {expected : Option Tag} {found left right : Tag}
  {place place' whole : Span}

theorem resolveUnary_of_undefined (h : found = .undefined) :
    resolveUnary op found place whole = ⟨.undefined, []⟩ :=
  if_pos h

theorem resolveBinary_of_undefined (h : left = .undefined ∨ right = .undefined) :
    resolveBinary binary left right place place' whole = ⟨.undefined, []⟩ :=
  if_pos h

theorem resolveBranches_of_undefined (h : left = .undefined ∨ right = .undefined) :
    resolveBranches expected left right place place' = ⟨.undefined, []⟩ :=
  if_pos h

/-- How a verdict on a node comes about.  A tag that is not `undefined` comes without a
finding, and an `undefined` without a finding comes from what is said of the parts.  The
limit is no matter of verdicts. -/
structure Verdict.From (verdict : Verdict) (parts : Prop) : Prop where
  silent : verdict.tag ≠ .undefined → verdict.findings = []
  origin : verdict.tag = .undefined → verdict.findings = [] → parts
  besidesLimit : BesidesLimit verdict.findings

theorem Verdict.From.passed {parts : Prop} (h : parts) :
    (⟨.undefined, []⟩ : Verdict).From parts :=
  ⟨fun _ => rfl, fun _ _ => h, .nil⟩

theorem Verdict.From.blamed {parts : Prop} {finding : Finding}
    (h : finding.besidesLimit = true) : (⟨.undefined, [finding]⟩ : Verdict).From parts :=
  ⟨fun htag => absurd rfl htag, fun _ hsilent => by contradiction, .singleton h⟩

theorem Verdict.From.defined {parts : Prop} {tag : Tag} (h : tag ≠ .undefined) :
    (⟨tag, []⟩ : Verdict).From parts :=
  ⟨fun _ => rfl, fun hundefined => absurd hundefined h, .nil⟩

theorem resolveName_from {scopes : Scopes} {name : Name} :
    (resolveName scopes name).From (scopes.symbol? name.text = some (.value .undefined)) := by
  unfold resolveName
  split
  · rename_i kind hsymbol
    by_cases hkind : kind = .undefined
    · rw [hkind] at hsymbol ⊢
      exact .passed hsymbol
    · exact .defined hkind
  · exact .blamed rfl
  · exact .blamed rfl

theorem resolveUnary_from :
    (resolveUnary op found place whole).From (found = .undefined) := by
  by_cases hfound : found = .undefined
  · rw [resolveUnary_of_undefined hfound]
    exact .passed hfound
  · unfold resolveUnary
    rw [if_neg hfound]
    split
    · exact .defined op.result_ne_undefined
    · exact .blamed rfl

theorem resolveBinary_from :
    (resolveBinary binary left right place place' whole).From
      (left = .undefined ∨ right = .undefined) := by
  by_cases hparts : left = .undefined ∨ right = .undefined
  · rw [resolveBinary_of_undefined hparts]
    exact .passed hparts
  · unfold resolveBinary
    dsimp only
    rw [if_neg hparts]
    split
    · exact .blamed rfl
    · split
      · exact .blamed rfl
      · split
        · exact .blamed rfl
        · exact .defined binary.result_ne_undefined

theorem resolveBranches_from :
    (resolveBranches expected left right place place').From
      (left = .undefined ∨ right = .undefined) := by
  by_cases hparts : left = .undefined ∨ right = .undefined
  · rw [resolveBranches_of_undefined hparts]
    exact .passed hparts
  · unfold resolveBranches
    dsimp only
    rw [if_neg hparts]
    split
    · exact .blamed rfl
    · rename_i joined hjoin
      obtain ⟨hleft, hright⟩ := not_or.1 hparts
      have hjoined := Tag.join?_ne_undefined hleft hright hjoin
      split
      · exact .defined hjoined
      · split
        · exact .defined hjoined
        · exact .blamed rfl

/-- The branches of a conditional are compared under a condition that decides. -/
theorem decided_from :
    (if decides found then resolveBranches expected left right place place'
      else ⟨.undefined, []⟩ : Verdict).From
        (decides found = false ∨ left = .undefined ∨ right = .undefined) := by
  cases decides found with
  | true =>
    have hbranches := @resolveBranches_from expected left right place place'
    exact ⟨hbranches.silent, fun htag hsilent => .inr (hbranches.origin htag hsilent),
      hbranches.besidesLimit⟩
  | false => exact .passed (.inl rfl)

theorem resolveBranches_length_le :
    (resolveBranches expected left right place place').findings.length ≤ 1 := by
  unfold resolveBranches
  dsimp only
  split
  · exact Nat.zero_le _
  · split
    · exact Nat.le_refl _
    · split
      · exact Nat.zero_le _
      · split
        · exact Nat.zero_le _
        · exact Nat.le_refl _

end

/-! ## Plans and `undefined` -/

/-- The finding says that a call has the wrong arguments. -/
def Finding.OnArguments (finding : Finding) : Prop :=
  finding.code = .arityMismatch ∨ finding.code = .argumentMismatch

/-- A name whose call has a tag is a function. -/
theorem checkCallee_onArguments {scopes : Scopes} {callee : Name}
    (h : resultTag scopes callee ≠ .undefined) (given : Nat) (span : Span) :
    ∀ finding ∈ checkCallee scopes callee given span, finding.OnArguments := by
  unfold checkCallee
  split
  · split
    · exact List.forall_mem_nil _
    · exact List.forall_mem_singleton.2 (.inl rfl)
  · rename_i hsymbol
    exact absurd (by simp [resultTag, signatureOf?, hsymbol, Symbol.signature?]) h
  · rename_i hsymbol
    exact absurd (by simp [resultTag, signatureOf?, hsymbol]) h

theorem checkArgument_onArguments (callee : Name) (index : Nat) (expected : Option Tag)
    (found : Tag) (span : Span) :
    ∀ finding ∈ checkArgument callee index expected found span, finding.OnArguments := by
  unfold checkArgument
  split
  · exact List.forall_mem_nil _
  · split
    · exact List.forall_mem_nil _
    · exact List.forall_mem_singleton.2 (.inr rfl)

theorem checkCondition_of_decides {found : Tag} (h : decides found = true) (span : Span) :
    checkCondition found span = [] := by
  simp only [decides, Bool.and_eq_true] at h
  exact if_pos h.2

/-- The plan ends with `undefined`, whatever the tags of the parts are. -/
def Plan.Lost : Plan → Prop
  | done tag => tag = .undefined
  | report _ _ next => next.Lost
  | part _ _ next => ∀ tag, (next tag).Lost

/-- What a plan does not survive: it ends with `undefined` after a part that is `undefined`, and
after findings other than on the arguments of calls. -/
def Plan.Strict : Plan → Prop
  | done _ => True
  | report _ findings next =>
    (next.Lost ∨ ∀ finding ∈ findings, finding.OnArguments) ∧ next.Strict
  | part _ _ next => (next .undefined).Lost ∧ ∀ tag, (next tag).Strict

theorem Plan.Lost.run {plan : Plan} (h : plan.Lost) (resolve : Resolver) (flag : Bool) :
    (plan.run resolve flag).tag = .undefined := by
  induction plan generalizing flag with
  | done tag => exact h
  | report argument findings next ih => exact ih h flag
  | part e expected next ih => exact ih _ (h _) _

theorem Plan.Lost.ofArguments (callee : Name) {result : Tag} (arguments : List Expr) :
    ∀ (index : Nat) (tags : List Tag) (anyUndefined : Bool),
      anyUndefined = true ∨ result = .undefined →
      (ofArguments callee result index tags anyUndefined arguments).Lost := by
  induction arguments with
  | nil =>
    rintro index tags anyUndefined (rfl | rfl)
    · rfl
    · exact ite_self _
  | cons argument rest ih =>
    intro index tags anyUndefined h found
    refine ih (index + 1) tags.tail _ (h.imp_left fun hany => ?_)
    rw [hany, Bool.true_or]

theorem Plan.Strict.ofArguments (callee : Name) (result : Tag) (arguments : List Expr) :
    ∀ (index : Nat) (tags : List Tag) (anyUndefined : Bool),
      (ofArguments callee result index tags anyUndefined arguments).Strict := by
  induction arguments with
  | nil => exact fun _ _ _ => trivial
  | cons argument rest ih =>
    intro index tags anyUndefined
    constructor
    · exact .ofArguments callee rest _ _ _ (.inl (Bool.or_true _))
    · intro found
      exact ⟨.inr (checkArgument_onArguments callee index _ found _), ih _ _ _⟩

theorem Plan.Strict.conclude {verdict : Verdict} {parts : Prop} (h : verdict.From parts) :
    (conclude verdict).Strict := by
  refine ⟨?_, trivial⟩
  by_cases htag : verdict.tag = .undefined
  · exact .inl htag
  · right
    rw [h.silent htag]
    exact List.forall_mem_nil _

/-- No node survives an `undefined` part, or a finding of its own. -/
theorem Expr.plan_strict (scopes : Scopes) (expected : Option Tag) (e : Expr) :
    (e.plan scopes expected).Strict := by
  cases e with
  | literal value span => trivial
  | var name span => exact .conclude resolveName_from
  | call callee arguments span =>
    refine ⟨?_, .ofArguments _ _ _ _ _ _⟩
    by_cases hresult : resultTag scopes callee = .undefined
    · exact .inl (.ofArguments _ _ _ _ _ (.inr hresult))
    · exact .inr (checkCallee_onArguments hresult _ _)
  | unary op operand span =>
    constructor
    · exact congrArg Verdict.tag (resolveUnary_of_undefined rfl)
    · exact fun found => .conclude resolveUnary_from
  | binary op left right span =>
    constructor
    · exact fun second => congrArg Verdict.tag (resolveBinary_of_undefined (.inl rfl))
    · intro first
      constructor
      · exact congrArg Verdict.tag (resolveBinary_of_undefined (.inr rfl))
      · exact fun second => .conclude resolveBinary_from
  | conditional condition consequent alternative span =>
    constructor
    · exact fun first second => rfl
    · intro found
      have hlost : ∀ first second : Tag, first = .undefined ∨ second = .undefined →
          (if decides found then
              resolveBranches expected first second consequent.span alternative.span
            else ⟨.undefined, []⟩ : Verdict).tag = .undefined := by
        intro first second hparts
        rw [resolveBranches_of_undefined hparts, ite_self]
      refine ⟨?_, fun second => hlost _ second (.inl rfl), fun first => ⟨?_, fun second => ?_⟩⟩
      · cases hdecides : decides found with
        | true =>
          right
          rw [checkCondition_of_decides hdecides]
          exact List.forall_mem_nil _
        | false =>
          left
          intro first second
          exact congrArg Verdict.tag (if_neg Bool.false_ne_true)
      · exact hlost first _ (.inr rfl)
      · exact .conclude decided_from

/-! ## Upwards -/

theorem leave_undefined_mem {e node : Expr} {depth : Nat} {events : List Event} {tag : Tag}
    (h : .leave node .undefined ∈ .enter e depth :: events ++ [.leave e tag]) :
    tag = .undefined ∨ .leave node .undefined ∈ events := by
  simp only [List.cons_append, List.mem_cons, List.mem_append, reduceCtorEq,
    Event.leave.injEq, false_or, List.not_mem_nil, or_false] at h
  rcases h with h | ⟨-, htag⟩
  · exact .inr h
  · exact .inl htag.symm

theorem Plan.Through.undefined_of_leave {plan : Plan} {parts : List Expr} (h : plan.Through parts)
    (hstrict : plan.Strict) {env : Env} {depth : Nat} {node : Expr}
    (hparts : ∀ part ∈ parts, ∀ expected flag,
      .leave node .undefined ∈ part.trace env expected depth flag →
      (part.resolve env expected depth flag).tag = .undefined)
    {flag : Bool} (hleave : .leave node .undefined ∈ plan.trace env depth flag) :
    (plan.run (env.resolver depth) flag).tag = .undefined := by
  induction h generalizing flag with
  | done => contradiction
  | report _ ih => exact ih hstrict.2 hparts hleave
  | @part e expected next rest _ ih =>
    obtain ⟨hfirst, hrest⟩ := List.forall_mem_cons.1 hparts
    rcases List.mem_append.1 hleave with hleave | hleave
    · have htag : (env.resolver depth e expected flag).tag = .undefined :=
        hfirst expected flag hleave
      rw [Plan.run, htag]
      exact hstrict.1.run _ _
    · exact ih _ (hstrict.2 _) hrest hleave

/-- What is left with `undefined` makes the whole `undefined`. -/
theorem Expr.undefined_of_leave (env : Env) {node : Expr} (e : Expr) :
    ∀ (expected : Option Tag) (depth : Nat) (flag : Bool),
      .leave node .undefined ∈ e.trace env expected depth flag →
      (e.resolve env expected depth flag).tag = .undefined := by
  induction e using Expr.induction_parts with
  | h e ih =>
    intro expected depth flag hleave
    rcases Nat.lt_or_ge depth env.limit with hdepth | hdeep
    · rw [Expr.resolve_of_lt hdepth]
      rw [Expr.trace_of_lt hdepth] at hleave
      rcases leave_undefined_mem hleave with htag | hpart
      · exact htag
      · exact (e.plan_through _ _).undefined_of_leave (e.plan_strict _ _)
          (fun part hpart expected => ih part hpart expected (depth + 1)) hpart
    · rw [Expr.resolve_of_limit_le hdeep]
      rfl

/-! ## Defined tags -/

theorem Plan.Through.onArguments_of_defined {plan : Plan} {parts : List Expr}
    (h : plan.Through parts) (hstrict : plan.Strict) {resolve : Resolver}
    (hparts : ∀ part ∈ parts, ∀ expected flag, (resolve part expected flag).tag ≠ .undefined →
      ∀ finding ∈ (resolve part expected flag).findings, finding.OnArguments)
    {flag : Bool} (htag : (plan.run resolve flag).tag ≠ .undefined) :
    ∀ finding ∈ (plan.run resolve flag).findings, finding.OnArguments := by
  induction h generalizing flag with
  | done => exact List.forall_mem_nil _
  | report _ ih =>
    rcases hstrict.1 with hlost | hfindings
    · exact absurd (hlost.run resolve flag) htag
    · exact List.forall_mem_append.2 ⟨hfindings, ih hstrict.2 hparts htag⟩
  | @part e expected next rest _ ih =>
    obtain ⟨hfirst, hrest⟩ := List.forall_mem_cons.1 hparts
    have hpart : (resolve e expected flag).tag ≠ .undefined := by
      intro hundefined
      rw [Plan.run, hundefined] at htag
      exact htag (hstrict.1.run resolve _)
    exact List.forall_mem_append.2 ⟨hfirst expected flag hpart, ih _ (hstrict.2 _) hrest htag⟩

/-- An expression with a tag has no findings but on the arguments of calls.  All of its
parts have tags then. -/
theorem Expr.onArguments_of_defined (env : Env) (e : Expr) :
    ∀ (expected : Option Tag) (depth : Nat) (flag : Bool),
      (e.resolve env expected depth flag).tag ≠ .undefined →
      ∀ finding ∈ (e.resolve env expected depth flag).findings, finding.OnArguments := by
  induction e using Expr.induction_parts with
  | h e ih =>
    intro expected depth flag htag
    rcases Nat.lt_or_ge depth env.limit with hdepth | hdeep
    · rw [Expr.resolve_of_lt hdepth] at htag ⊢
      exact (e.plan_through _ _).onArguments_of_defined (e.plan_strict _ _)
        (fun part hpart expected => ih part hpart expected (depth + 1)) htag
    · rw [Expr.resolve_of_limit_le hdeep] at htag
      exact absurd rfl htag

/-! ## Downwards -/

/-- The node uses a declaration whose tag is `undefined`: it is a variable with that tag, or
a call of a function with that result. -/
def Expr.UsesUndefined (scopes : Scopes) : Expr → Prop
  | var name _ => scopes.symbol? name.text = some (.value .undefined)
  | call callee _ _ =>
    ∃ parameters, scopes.symbol? callee.text = some (.function ⟨parameters, .undefined⟩)
  | _ => False

/-- Where an `undefined` without a finding comes from: a node uses an `undefined`
declaration, or the limit is reached and has been reported before. -/
def Expr.HasOrigin (env : Env) (depth : Nat) (flag : Bool) (e : Expr) : Prop :=
  (∃ level, ∃ node ∈ e.atLevel level, node.UsesUndefined env.scopes) ∨
    flag = true ∧ env.limit < depth + e.height

theorem Expr.HasOrigin.of_part {env : Env} {depth : Nat} {flag : Bool} {part e : Expr}
    (hpart : part ∈ e.parts) (h : part.HasOrigin env (depth + 1) flag) :
    e.HasOrigin env depth flag := by
  rcases h with ⟨level, node, hnode, huses⟩ | ⟨hflag, hheight⟩
  · refine .inl ⟨level + 1, node, ?_, huses⟩
    rw [Expr.atLevel]
    exact List.mem_flatMap.2 ⟨part, hpart, hnode⟩
  · have hlt := Expr.height_lt_of_mem_parts hpart
    exact .inr ⟨hflag, by omega⟩

/-- The flag is set without a finding only if it was set before. -/
theorem Expr.flag_of_silent {env : Env} {e : Expr} {expected : Option Tag} {depth : Nat}
    {flag : Bool} (h : (e.resolve env expected depth flag).findings = [])
    (hexceeded : (e.resolve env expected depth flag).exceeded = true) : flag = true := by
  cases flag with
  | true => rfl
  | false =>
    obtain ⟨finding, hmem, -⟩ := e.reportsLimit env expected depth hexceeded
    rw [h] at hmem
    contradiction

/-- An origin behind a silent part is one before it. -/
theorem Expr.HasOrigin.before {env : Env} {part e : Expr} {expected : Option Tag} {depth : Nat}
    {flag : Bool}
    (h : e.HasOrigin env depth (part.resolve env expected depth flag).exceeded)
    (hsilent : (part.resolve env expected depth flag).findings = []) :
    e.HasOrigin env depth flag :=
  h.imp_right fun hdeep => ⟨Expr.flag_of_silent hsilent hdeep.1, hdeep.2⟩

/-- A function that is called without a finding and has no tag has the result `undefined`. -/
theorem exists_function_of_silent {scopes : Scopes} {callee : Name} {given : Nat} {span : Span}
    (hsilent : checkCallee scopes callee given span = [])
    (htag : resultTag scopes callee = .undefined) :
    ∃ parameters, scopes.symbol? callee.text = some (.function ⟨parameters, .undefined⟩) := by
  unfold checkCallee at hsilent
  split at hsilent
  · rename_i signature hsymbol
    refine ⟨signature.parameters, ?_⟩
    simp only [resultTag, signatureOf?, hsymbol] at htag
    rw [hsymbol, ← show signature.result = .undefined from htag]
  · contradiction
  · contradiction

/-- A condition that does not decide is reported, or it is `undefined`. -/
theorem undefined_of_not_decides {found : Tag} {span : Span} (h : decides found = false)
    (hsilent : checkCondition found span = []) : found = .undefined := by
  unfold checkCondition at hsilent
  split at hsilent
  · rename_i hbool
    simpa [decides, hbool] using h
  · contradiction

/-- If all parts have tags and nothing is reported, only `own` makes the plan end with
`undefined`. -/
def Plan.Accounted (own : Prop) : Plan → Prop
  | done tag => tag = .undefined → own
  | report _ findings next => findings = [] → next.Accounted own
  | part _ _ next => ∀ tag, tag ≠ .undefined → (next tag).Accounted own

theorem Plan.Accounted.conclude {own parts : Prop} {verdict : Verdict} (h : verdict.From parts)
    (hparts : parts → own) : (conclude verdict).Accounted own :=
  fun hsilent htag => hparts (h.origin htag hsilent)

theorem Plan.Accounted.ofArguments {own : Prop} (callee : Name) {result : Tag}
    (h : result = .undefined → own) (arguments : List Expr) :
    ∀ (index : Nat) (tags : List Tag),
      (ofArguments callee result index tags false arguments).Accounted own := by
  induction arguments with
  | nil => exact fun _ _ => h
  | cons argument rest ih =>
    intro index tags found hfound _
    rw [beq_false_of_ne hfound, Bool.or_false]
    exact ih (index + 1) tags.tail

theorem Expr.plan_accounted (scopes : Scopes) (expected : Option Tag) (e : Expr) :
    (e.plan scopes expected).Accounted (e.UsesUndefined scopes) := by
  cases e with
  | literal value span =>
    intro htag
    cases value <;> contradiction
  | var name span => exact .conclude resolveName_from id
  | call callee arguments span =>
    intro hsilent
    exact .ofArguments callee (exists_function_of_silent hsilent) arguments _ _
  | unary op operand span => exact fun found hfound => .conclude resolveUnary_from hfound
  | binary op left right span =>
    intro first hfirst second hsecond
    exact .conclude resolveBinary_from fun hparts => (hparts.elim hfirst hsecond).elim
  | conditional condition consequent alternative span =>
    intro found hfound hsilent first hfirst second hsecond
    refine .conclude decided_from ?_
    rintro (hdecides | hparts)
    -- A condition that does not decide is silent only if it is `undefined`, and it is not.
    · exact absurd (undefined_of_not_decides hdecides hsilent) hfound
    · exact (hparts.elim hfirst hsecond).elim

theorem Plan.Through.exists_origin {plan : Plan} {parts : List Expr} (h : plan.Through parts)
    {own : Prop} (haccounted : plan.Accounted own) {env : Env} {depth : Nat}
    (hparts : ∀ part ∈ parts, ∀ expected flag,
      (part.resolve env expected depth flag).tag = .undefined →
      (part.resolve env expected depth flag).findings = [] → part.HasOrigin env depth flag)
    {flag : Bool} (htag : (plan.run (env.resolver depth) flag).tag = .undefined)
    (hsilent : (plan.run (env.resolver depth) flag).findings = []) :
    own ∨ ∃ part ∈ parts, part.HasOrigin env depth flag := by
  induction h generalizing flag with
  | done => exact .inl (haccounted htag)
  | report _ ih =>
    obtain ⟨hreport, hrest⟩ := List.append_eq_nil_iff.1 hsilent
    exact ih (haccounted hreport) hparts htag hrest
  | @part e expected next rest _ ih =>
    obtain ⟨hfirst, hothers⟩ := List.forall_mem_cons.1 hparts
    obtain ⟨hpart, hrest⟩ := List.append_eq_nil_iff.1 hsilent
    by_cases hundefined : (e.resolve env expected depth flag).tag = .undefined
    · exact .inr ⟨e, List.mem_cons_self, hfirst expected flag hundefined hpart⟩
    · rcases ih _ (haccounted _ hundefined) hothers htag hrest with
        hown | ⟨other, hother, horigin⟩
      · exact .inl hown
      -- A part that is silent passes the flag on as it was.
      · exact .inr ⟨other, List.mem_cons_of_mem _ hother, horigin.before hpart⟩

/-- An `undefined` without a finding has an origin. -/
theorem Expr.exists_origin (env : Env) (e : Expr) :
    ∀ (expected : Option Tag) (depth : Nat) (flag : Bool),
      (e.resolve env expected depth flag).tag = .undefined →
      (e.resolve env expected depth flag).findings = [] → e.HasOrigin env depth flag := by
  induction e using Expr.induction_parts with
  | h e ih =>
    intro expected depth flag htag hsilent
    rcases Nat.lt_or_ge depth env.limit with hdepth | hdeep
    · rw [Expr.resolve_of_lt hdepth] at htag hsilent
      rcases (e.plan_through _ _).exists_origin (e.plan_accounted _ _)
        (fun part hpart expected => ih part hpart expected (depth + 1)) htag hsilent with
        hown | ⟨part, hpart, horigin⟩
      · exact .inl ⟨0, e, List.mem_singleton_self e, hown⟩
      · exact horigin.of_part hpart
    · have hheight := e.height_eq
      rw [Expr.resolve_of_limit_le hdeep] at hsilent
      -- A node at the limit is silent only if the limit has been reported.
      cases flag with
      | true => exact .inr ⟨rfl, by omega⟩
      | false => contradiction

/-! ## Starting points -/

/-- What `undefined` has to do with findings, for every expression and every starting point.

A walk leaves every node that it reaches, and if it leaves one with `undefined`, the whole is
`undefined`.  If the whole has another tag, nothing was reported but wrong arguments of calls.
If the whole is `undefined` and nothing was reported, some node uses a declaration that is
`undefined`, or the limit is exceeded and had been reported before. -/
theorem resolve_absorbs_undefined (e : Expr) (context : Context) :
    (∀ node depth, e.Reaches context.limit context.depth node depth →
      ∃ tag, .leave node tag ∈ context.trace e) ∧
    (∀ node, .leave node .undefined ∈ context.trace e →
      (context.resolve e).1 = .undefined) ∧
    ((context.resolve e).1 ≠ .undefined →
      ∃ new, (context.resolve e).2.log.diagnostics = context.log.diagnostics ++ new ∧
        ∀ diagnostic ∈ new,
          diagnostic.code = .arityMismatch ∨ diagnostic.code = .argumentMismatch) ∧
    ((context.resolve e).1 = .undefined → (context.resolve e).2.log = context.log →
      (∃ level, ∃ node ∈ e.atLevel level, node.UsesUndefined context.scopes) ∨
        context.exceeded = true ∧ context.limit < context.depth + e.height) := by
  refine ⟨?_, ?_, ?_, ?_⟩
  · intro node depth hreaches
    apply Expr.closed_trace _ e _ _ _ node depth
    exact (Expr.enter_mem_trace _ e _ _ _).2 hreaches
  · intro node hleave
    exact Expr.undefined_of_leave _ e _ _ _ hleave
  · intro htag
    refine ⟨_, rfl, ?_⟩
    intro diagnostic hmem
    obtain ⟨finding, hfinding, rfl⟩ := List.mem_map.1 hmem
    exact Expr.onArguments_of_defined _ e _ _ _ htag finding hfinding
  · intro htag hlog
    apply Expr.exists_origin _ e _ _ _ htag
    exact (Log.record_eq_self_iff _ _).1 hlog

end TagLang
