import TagLang.Proofs.Depth

/-!
# What a resolution depends on

A resolution is given a whole table of declarations, a limit, a depth, a flag and a log.  This
module compares two resolutions of one expression and says how little of that matters.

* `Expr.mentions` lists the names that an expression looks up.  `Expr.plan_congr` says that
  the plan of a node reads nothing else from the scopes.
* `Expr.resolve_agree` is the induction.  It compares two starting points with the same levels
  left.  The outcomes are equal, but for the limit that a report on it names.
* `Expr.findings_flagged_cases` says what the flag takes away: one report on the limit, where the
  expression is too high.
* `resolve_depends_on_mentions` is the result for starting points.
-/

namespace TagLang

/-! ## Names -/

mutual

/-- The names of the variables and callees in an expression. -/
def Expr.mentions : Expr → List String
  | .literal _ _ => []
  | .var name _ => [name.text]
  | .call callee arguments _ => callee.text :: mentionsOfEach arguments
  | .unary _ operand _ => operand.mentions
  | .binary _ left right _ => left.mentions ++ right.mentions
  | .conditional condition consequent alternative _ =>
    condition.mentions ++ (consequent.mentions ++ alternative.mentions)

/-- The names in several expressions. -/
def mentionsOfEach : List Expr → List String
  | [] => []
  | e :: rest => e.mentions ++ mentionsOfEach rest

end

/-- The scopes give the same answers for these names. -/
def Scopes.AgreeOn (texts : List String) (scopes scopes' : Scopes) : Prop :=
  ∀ text ∈ texts, scopes.symbol? text = scopes'.symbol? text

theorem mentions_subset_mentionsOfEach {part : Expr} {parts : List Expr} (h : part ∈ parts) :
    part.mentions ⊆ mentionsOfEach parts := by
  induction parts with
  | nil => contradiction
  | cons first rest ih =>
    rw [mentionsOfEach]
    rcases List.mem_cons.1 h with rfl | h
    · exact List.subset_append_left _ _
    · exact List.subset_append_of_subset_right _ (ih h)

/-- An expression mentions what its parts mention. -/
theorem Expr.mentions_subset_of_mem_parts {part e : Expr} (h : part ∈ e.parts) :
    part.mentions ⊆ e.mentions := by
  have hsubset := mentions_subset_mentionsOfEach h
  cases e <;> simp_all [Expr.parts, Expr.mentions, mentionsOfEach]

theorem Scopes.AgreeOn.part {part e : Expr} {scopes scopes' : Scopes}
    (h : Scopes.AgreeOn e.mentions scopes scopes') (hpart : part ∈ e.parts) :
    Scopes.AgreeOn part.mentions scopes scopes' :=
  fun text hmem => h text (Expr.mentions_subset_of_mem_parts hpart hmem)

/-! ## Single nodes -/

section

variable {scopes scopes' : Scopes} {name : Name}
  (h : scopes.symbol? name.text = scopes'.symbol? name.text)
include h

theorem resolveName_congr : resolveName scopes name = resolveName scopes' name := by
  unfold resolveName
  rw [h]

theorem checkCallee_congr (given : Nat) (span : Span) :
    checkCallee scopes name given span = checkCallee scopes' name given span := by
  unfold checkCallee
  rw [h]

theorem signatureOf?_congr : signatureOf? scopes name = signatureOf? scopes' name := by
  unfold signatureOf?
  rw [h]

theorem parameterTags_congr : parameterTags scopes name = parameterTags scopes' name := by
  unfold parameterTags
  rw [signatureOf?_congr h]

theorem resultTag_congr : resultTag scopes name = resultTag scopes' name := by
  unfold resultTag
  rw [signatureOf?_congr h]

end

/-- The plan of a node reads nothing but the names that the node mentions. -/
theorem Expr.plan_congr {e : Expr} {scopes scopes' : Scopes}
    (h : Scopes.AgreeOn e.mentions scopes scopes') (expected : Option Tag) :
    e.plan scopes expected = e.plan scopes' expected := by
  cases e with
  | var name span =>
    have hname := h name.text (List.mem_singleton_self _)
    rw [Expr.plan, Expr.plan, resolveName_congr hname]
  | call callee arguments span =>
    have hcallee := h callee.text List.mem_cons_self
    rw [Expr.plan, Expr.plan, checkCallee_congr hcallee, resultTag_congr hcallee,
      parameterTags_congr hcallee]
  | _ => rfl

/-! ## The limit that is named -/

/-- The finding, with another limit where it names one. -/
def Finding.withLimit (limit : Nat) : Finding → Finding
  | .tooDeep _ span => .tooDeep limit span
  | finding => finding

/-- The outcome, with another limit where a finding names one. -/
def Outcome.withLimit (limit : Nat) (outcome : Outcome) : Outcome :=
  { outcome with findings := outcome.findings.map (Finding.withLimit limit) }

theorem Finding.withLimit_of_besidesLimit {finding : Finding} (h : finding.besidesLimit = true)
    (limit : Nat) : finding.withLimit limit = finding := by
  cases finding with
  | tooDeep named span => contradiction
  | _ => rfl

theorem BesidesLimit.map_withLimit {findings : List Finding} (h : BesidesLimit findings)
    (limit : Nat) : findings.map (Finding.withLimit limit) = findings := by
  have hsame : ∀ finding ∈ findings, finding.withLimit limit = id finding :=
    fun finding hmem => finding.withLimit_of_besidesLimit (h finding hmem) limit
  rw [List.map_congr_left hsame, List.map_id]

theorem tooDeep_withLimit (limit limit' : Nat) (flag : Bool) (span : Span) :
    tooDeep limit' flag span = (tooDeep limit flag span).withLimit limit' := by
  cases flag <;> rfl

/-! ## Two resolutions -/

/-- Two resolutions with the same answers for the names of the expression, the same
expectation, flag and number of levels left.  Only the limit that they name may differ.  The
levels left stay equal on the way down, whatever limit and depth they come from. -/
theorem Expr.resolve_agree {env env' : Env} (e : Expr) :
    ∀ (expected : Option Tag) (depth depth' : Nat) (flag : Bool),
      Scopes.AgreeOn e.mentions env.scopes env'.scopes →
      env.limit - depth = env'.limit - depth' →
      e.resolve env' expected depth' flag =
        (e.resolve env expected depth flag).withLimit env'.limit := by
  induction e using Expr.induction_parts with
  | h e ih =>
    intro expected depth depth' flag hnames hlevels
    rcases Nat.lt_or_ge depth env.limit with hdepth | hdeep
    · have hdepth' : depth' < env'.limit := by omega
      have hbelow : env.limit - (depth + 1) = env'.limit - (depth' + 1) := by omega
      rw [Expr.resolve_of_lt hdepth, Expr.resolve_of_lt hdepth', Expr.plan_congr hnames]
      refine (e.plan_through _ _).run_kept (e.plan_besidesLimit _ _) id
        (fun _ h => BesidesLimit.map_withLimit h env'.limit) (fun _ _ => List.map_append) ?_ flag
      intro part hpart expected flag
      exact ih part hpart expected (depth + 1) (depth' + 1) flag (hnames.part hpart) hbelow
    · have hdeep' : env'.limit ≤ depth' := by omega
      rw [Expr.resolve_of_limit_le hdeep, Expr.resolve_of_limit_le hdeep']
      exact tooDeep_withLimit env.limit env'.limit flag e.span

/-- Under one limit the outcomes are equal.  A resolution names its own limit, which is the
law above for two equal starting points. -/
theorem Expr.resolve_agree_of_limit_eq {env env' : Env} (hlimit : env.limit = env'.limit)
    {e : Expr} (hnames : Scopes.AgreeOn e.mentions env.scopes env'.scopes) {depth depth' : Nat}
    (hlevels : env.limit - depth = env'.limit - depth') (expected : Option Tag) (flag : Bool) :
    e.resolve env' expected depth' flag = e.resolve env expected depth flag := by
  have hown : e.resolve env expected depth flag =
      (e.resolve env expected depth flag).withLimit env.limit :=
    e.resolve_agree expected depth depth flag (fun _ _ => rfl) rfl
  rw [e.resolve_agree expected depth depth' flag hnames hlevels, ← hlimit]
  exact hown.symm

/-! ## The flag -/

/-- The second list is the first one without one report on the limit. -/
def LacksLimitReport (full lacking : List Diagnostic) : Prop :=
  ∃ before report after, report.code = .nestingTooDeep ∧ full = before ++ report :: after ∧
    lacking = before ++ after

/-- What the flag takes away: nothing from an expression that fits, and otherwise the one
report on the limit. -/
theorem Expr.findings_flagged_cases (env : Env) (e : Expr) (expected : Option Tag) (depth : Nat) :
    let full := (e.resolve env expected depth false).findings.map Finding.diagnostic
    let lacking := (e.resolve env expected depth true).findings.map Finding.diagnostic
    if env.limit < depth + e.height then LacksLimitReport full lacking else full = lacking := by
  intro full lacking
  have hflagged : (e.resolve env expected depth true).findings =
      (e.resolve env expected depth false).findings.filter Finding.besidesLimit :=
    congrArg Outcome.findings (e.resolve_flagged env expected depth false)
  split
  next hhigh =>
    have hreports := (e.accounts env expected depth false).reports_eq
    have hsome := e.isSome_firstBeyond? env expected depth
    rw [decide_eq_true hhigh] at hsome
    obtain ⟨node, hnode⟩ := Option.isSome_iff_exists.1 hsome
    rw [limitReports, hnode] at hreports
    obtain ⟨before, after, hsplit, hbefore, -, hafter⟩ := List.filter_eq_cons_iff.1 hreports
    have hquiet : BesidesLimit before :=
      fun finding hmem => by simpa using hbefore finding hmem
    have hquiet' : BesidesLimit after := filter_limit_eq_nil_iff.1 hafter
    refine ⟨before.map Finding.diagnostic, (Finding.tooDeep env.limit node.span).diagnostic,
      after.map Finding.diagnostic, rfl, ?_, ?_⟩
    · show (e.resolve env expected depth false).findings.map Finding.diagnostic = _
      rw [hsplit, List.map_append, List.map_cons]
    · show (e.resolve env expected depth true).findings.map Finding.diagnostic = _
      rw [hflagged, hsplit, List.filter_append, hquiet.filter_eq,
        List.filter_cons_of_neg Bool.false_ne_true, hquiet'.filter_eq, List.map_append]
  next hfits =>
    have hquiet : BesidesLimit (e.resolve env expected depth false).findings :=
      Expr.besidesLimit (.inr (by omega)) expected
    show (e.resolve env expected depth false).findings.map Finding.diagnostic =
      (e.resolve env expected depth true).findings.map Finding.diagnostic
    rw [hflagged, hquiet.filter_eq]

/-! ## Starting points -/

/-- Two starting points that look the same to an expression: the names that it mentions stand
for the same, the expectation is the same, and as many levels are left. -/
structure Context.SameFor (e : Expr) (context context' : Context) : Prop where
  names : Scopes.AgreeOn e.mentions context.scopes context'.scopes
  expected : context.expected = context'.expected
  levels : context.limit - context.depth = context'.limit - context'.depth

/-- A resolution depends only on what the expression mentions, on the expectation and on the
levels left.  Other declarations, the log and the flag do not change the tag, and a log only
grows.  Under one limit and with one flag, both runs report the same.  Where one flag is set
and the other is not, the reports are the same but for the one on the limit, and only where
the expression is too high. -/
theorem resolve_depends_on_mentions {e : Expr} {context context' : Context}
    (h : context.SameFor e context') :
    (context.resolve e).1 = (context'.resolve e).1 ∧
    ∃ new new',
      (context.resolve e).2.log = context.log.append new ∧
      (context'.resolve e).2.log = context'.log.append new' ∧
      (context.limit = context'.limit → context.exceeded = context'.exceeded → new = new') ∧
      (context.limit = context'.limit → context.exceeded ≠ context'.exceeded →
        if context.limit < context.depth + e.height then
          if context.exceeded then LacksLimitReport new' new else LacksLimitReport new new'
        else new = new') := by
  let env : Env := ⟨context.scopes, context.limit⟩
  let env' : Env := ⟨context'.scopes, context'.limit⟩
  have hagree : ∀ flag, e.resolve env' context'.expected context'.depth flag =
      (e.resolve env context.expected context.depth flag).withLimit env'.limit := by
    intro flag
    rw [← h.expected]
    exact e.resolve_agree context.expected context.depth context'.depth flag h.names h.levels
  have hequal : context.limit = context'.limit → ∀ flag,
      e.resolve env' context'.expected context'.depth flag =
        e.resolve env context.expected context.depth flag := by
    intro hlimit flag
    rw [← h.expected]
    exact Expr.resolve_agree_of_limit_eq hlimit h.names h.levels context.expected flag
  have hflag := e.findings_flagged_cases env context.expected context.depth
  refine ⟨?_, _, _, rfl, rfl, ?_, ?_⟩
  · show (e.resolve env context.expected context.depth context.exceeded).tag =
      (e.resolve env' context'.expected context'.depth context'.exceeded).tag
    rw [hagree]
    exact e.tag_flag env context.expected context.depth context.exceeded context'.exceeded
  · intro hlimit hexceeded
    rw [hequal hlimit, hexceeded]
  · intro hlimit hdiffer
    rw [hequal hlimit]
    cases hset : context.exceeded with
    | false =>
      rw [hset] at hdiffer
      rw [eq_true_of_ne_false hdiffer.symm]
      exact hflag
    | true =>
      rw [hset] at hdiffer
      rw [eq_false_of_ne_true hdiffer.symm]
      split at hflag
      · rwa [if_pos ‹_›]
      · rw [if_neg ‹_›]
        exact hflag.symm

/-- The expression `y + -x`, of height three. -/
def deepSum : Expr :=
  .binary .add (.var ⟨"y", ⟨10, 11⟩⟩ ⟨10, 11⟩)
    (.unary .negate (.var ⟨"x", ⟨15, 16⟩⟩ ⟨15, 16⟩) ⟨14, 16⟩) ⟨10, 16⟩

/-- Only `x` is declared, two levels are left, and nothing is reported. -/
def plainContext : Context :=
  ⟨⟨[⟨⟨"x", ⟨4, 5⟩⟩, .value .int⟩], []⟩, 3, none, 1, false, .empty⟩

/-- The same to `y + -x`: there is another name, `x` is declared further out, and the limit
has been reported before. -/
def busyContext : Context :=
  ⟨⟨[⟨⟨"z", ⟨8, 9⟩⟩, .value .str⟩], [[⟨⟨"x", ⟨2, 3⟩⟩, .value .int⟩]]⟩, 3, none, 1, true,
    ⟨[(Finding.tooDeep 3 ⟨0, 1⟩).diagnostic]⟩⟩

/-- `x` lies too deep.  Only the first run reports that, and both report the missing `y`. -/
theorem resolve_depends_on_mentions_sum :
    (plainContext.SameFor deepSum busyContext ∧ plainContext.limit = busyContext.limit ∧
      plainContext.exceeded ≠ busyContext.exceeded ∧
      plainContext.limit < plainContext.depth + deepSum.height) ∧
    (plainContext.resolve deepSum).1 = (busyContext.resolve deepSum).1 ∧
    ∃ new new', (plainContext.resolve deepSum).2.log = plainContext.log.append new ∧
      (busyContext.resolve deepSum).2.log = busyContext.log.append new' ∧
      LacksLimitReport new new' := by
  have hnames : Scopes.AgreeOn deepSum.mentions plainContext.scopes busyContext.scopes := by
    unfold Scopes.AgreeOn
    decide
  have hsame : plainContext.SameFor deepSum busyContext := ⟨hnames, rfl, rfl⟩
  have hdiffer : plainContext.exceeded ≠ busyContext.exceeded := by decide
  obtain ⟨htag, new, new', hlog, hlog', -, hflag⟩ := resolve_depends_on_mentions hsame
  exact ⟨⟨hsame, rfl, hdiffer, by decide⟩, htag, new, new', hlog, hlog', hflag rfl hdiffer⟩

end TagLang
