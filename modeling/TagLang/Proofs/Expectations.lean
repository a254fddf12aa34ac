import TagLang.Proofs.Depth
import TagLang.Proofs.Joins

/-!
# What an expectation does

Only the branches of a conditional look at the expectation.  This module says what it can do
for an expression, and which trees of conditionals it makes acceptable.

* `Outcome.Helped` compares the outcome without an expectation and the one with it.
  `Outcome.Helped.decided` is the law for a conditional and `Expr.resolve_helped` the one for
  expressions.  `resolve_expecting_helps` is what it says of diagnostics.
* A tree of conditionals is seen through its `leaves`, its `conditions` and its `choices`.
  `Expr.Choosing` gathers what is known of them, and `resolve_covered_choices` says when the
  expectation makes the tree acceptable.
-/

namespace TagLang

/-- The starting point with another expectation. -/
def Context.expecting (context : Context) (expected : Option Tag) : Context :=
  { context with expected := expected }

/-! ## Expectations help -/

/-- What an expectation may change in an outcome.  An outcome with a tag stays as it is.
Otherwise there are not more findings than before, and fewer if there is a tag now. -/
structure Outcome.Helped (plain helped : Outcome) : Prop where
  same : plain.tag ≠ .undefined → helped = plain
  exceeded : helped.exceeded = plain.exceeded
  length_le : helped.findings.length ≤ plain.findings.length
  length_lt : plain.tag = .undefined → helped.tag ≠ .undefined →
    helped.findings.length < plain.findings.length

theorem Outcome.Helped.refl (outcome : Outcome) : outcome.Helped outcome :=
  ⟨fun _ => rfl, rfl, Nat.le_refl _, fun hplain hhelped => absurd hplain hhelped⟩

section

variable {context first second : Tag} {place place' : Span}

/-- Two branches with tags are judged alike, or the expectation spares a report. -/
theorem resolveBranches_helped :
    resolveBranches (some context) first second place place' =
        resolveBranches none first second place place' ∨
      (resolveBranches none first second place place').tag = .undefined ∧
      (resolveBranches none first second place place').findings.length = 1 ∧
      (resolveBranches (some context) first second place place').findings = [] := by
  unfold resolveBranches
  dsimp only
  split
  · exact .inl rfl
  · split
    · exact .inl rfl
    · split
      · exact .inl rfl
      · split
        · exact .inr ⟨rfl, rfl, rfl⟩
        · exact .inl rfl

/-- The law for a conditional.  A branch that gets a tag through the expectation has spared
a report, which makes up for a report on the conditional itself. -/
theorem Outcome.Helped.decided {plain helped plain' helped' : Outcome}
    (hfirst : plain.Helped helped) (hsecond : plain'.Helped helped') (decision context : Tag)
    (before : List Finding) (place place' : Span) :
    let verdict (expected : Option Tag) (first second : Tag) : Verdict :=
      if decides decision then resolveBranches expected first second place place'
      else ⟨.undefined, []⟩
    Outcome.Helped
      ⟨(verdict none plain.tag plain'.tag).tag, plain'.exceeded,
        before ++ plain.findings ++ plain'.findings ++
          (verdict none plain.tag plain'.tag).findings⟩
      ⟨(verdict (some context) helped.tag helped'.tag).tag, helped'.exceeded,
        before ++ helped.findings ++ helped'.findings ++
          (verdict (some context) helped.tag helped'.tag).findings⟩ := by
  intro verdict
  have hle := hfirst.length_le
  have hle' := hsecond.length_le
  by_cases hdecides : decides decision = true
  · have hverdict : ∀ expected first second,
        verdict expected first second = resolveBranches expected first second place place' :=
      fun _ _ _ => if_pos hdecides
    simp only [hverdict]
    by_cases hparts : plain.tag = .undefined ∨ plain'.tag = .undefined
    · rw [resolveBranches_of_undefined hparts]
      -- With tags for both branches, one of them is new, and it has spared a report.
      have hspared : ¬(helped.tag = .undefined ∨ helped'.tag = .undefined) →
          helped.findings.length + helped'.findings.length <
            plain.findings.length + plain'.findings.length := by
        intro hdefined
        obtain ⟨hdefined, hdefined'⟩ := not_or.1 hdefined
        rcases hparts with hundefined | hundefined
        · have := hfirst.length_lt hundefined hdefined
          omega
        · have := hsecond.length_lt hundefined hdefined'
          omega
      constructor
      case same => exact fun htag => absurd rfl htag
      case exceeded => exact hsecond.exceeded
      case length_le =>
        simp only [List.length_append, List.length_nil]
        by_cases hdefined : helped.tag = .undefined ∨ helped'.tag = .undefined
        · rw [resolveBranches_of_undefined hdefined, List.length_nil]
          omega
        · have hone : (resolveBranches (some context) helped.tag helped'.tag place
              place').findings.length ≤ 1 := resolveBranches_length_le
          have := hspared hdefined
          omega
      case length_lt =>
        intro _ htag
        have hdefined := fun hundefined =>
          htag (congrArg Verdict.tag (resolveBranches_of_undefined hundefined))
        have := hspared hdefined
        simp only [resolveBranches_from.silent htag, List.length_append, List.length_nil]
        omega
    · obtain ⟨hdefined, hdefined'⟩ := not_or.1 hparts
      rw [hfirst.same hdefined, hsecond.same hdefined']
      rcases @resolveBranches_helped context plain.tag plain'.tag place place' with
        heq | ⟨htag, hone, hnone⟩
      · rw [heq]
        exact .refl _
      · constructor
        case same => exact fun hne => absurd htag hne
        case exceeded => rfl
        case length_le =>
          simp only [List.length_append, hone, hnone, List.length_nil]
          omega
        case length_lt =>
          intro _ _
          simp only [List.length_append, hone, hnone, List.length_nil]
          omega
  · have hverdict : ∀ expected first second, verdict expected first second = ⟨.undefined, []⟩ :=
      fun _ _ _ => if_neg hdecides
    simp only [hverdict]
    constructor
    case same => exact fun htag => absurd rfl htag
    case exceeded => exact hsecond.exceeded
    case length_le =>
      simp only [List.length_append]
      omega
    case length_lt => exact fun _ htag => absurd rfl htag

end

/-- An expectation only helps.  It reaches the branches of conditionals, and the induction
goes down these.  All other parts are resolved under expectations of their own. -/
theorem Expr.resolve_helped (env : Env) (context : Tag) :
    ∀ (e : Expr) (depth : Nat) (flag : Bool),
      (e.resolve env none depth flag).Helped (e.resolve env (some context) depth flag)
  | e, depth, flag => by
    by_cases hdeep : env.limit ≤ depth
    · rw [Expr.resolve_of_limit_le hdeep, Expr.resolve_of_limit_le hdeep]
      exact .refl _
    · cases e with
      | literal value span | var name span | call callee arguments span | unary op operand span
      | binary op left right span =>
        rw [Expr.resolve, Expr.resolve]
        exact .refl _
      | conditional condition consequent alternative span =>
        rw [Expr.resolve, Expr.resolve, if_neg hdeep, if_neg hdeep]
        dsimp only
        have hfirst := Expr.resolve_helped env context consequent (depth + 1)
          (condition.resolve env (some .bool) (depth + 1) flag).exceeded
        have hsecond := Expr.resolve_helped env context alternative (depth + 1)
          (consequent.resolve env none (depth + 1)
            (condition.resolve env (some .bool) (depth + 1) flag).exceeded).exceeded
        rw [hfirst.exceeded]
        exact hfirst.decided hsecond _ context _ consequent.span alternative.span

/-- An expectation only helps, whatever the expression and the starting point.  If the
expression has a tag without the expectation, it has the same tag with it, and the same is
reported.  In every case there are not more reports with the expectation, and there are fewer
if only the expectation gives a tag. -/
theorem resolve_expecting_helps (e : Expr) (context : Context) (wanted : Tag) :
    ∃ plain helped : List Diagnostic,
      ((context.expecting none).resolve e).2.log.diagnostics =
        context.log.diagnostics ++ plain ∧
      ((context.expecting (some wanted)).resolve e).2.log.diagnostics =
        context.log.diagnostics ++ helped ∧
      (((context.expecting none).resolve e).1 ≠ .undefined →
        ((context.expecting (some wanted)).resolve e).1 = ((context.expecting none).resolve e).1 ∧
          helped = plain) ∧
      helped.length ≤ plain.length ∧
      (((context.expecting none).resolve e).1 = .undefined →
        ((context.expecting (some wanted)).resolve e).1 ≠ .undefined →
        helped.length < plain.length) := by
  have hhelped := e.resolve_helped ⟨context.scopes, context.limit⟩ wanted context.depth
    context.exceeded
  refine ⟨_, _, rfl, rfl, ?_, ?_, ?_⟩
  · intro htag
    have hsame := hhelped.same htag
    exact ⟨congrArg Outcome.tag hsame,
      congrArg (fun outcome => outcome.findings.map Finding.diagnostic) hsame⟩
  · rw [List.length_map, List.length_map]
    exact hhelped.length_le
  · intro htag hdefined
    rw [List.length_map, List.length_map]
    exact hhelped.length_lt htag hdefined

/-! ## Trees of conditionals -/

namespace Expr

/-- The branches of a tree of conditionals that are no conditionals themselves. -/
def leaves : Expr → List Expr
  | conditional _ consequent alternative _ => consequent.leaves ++ alternative.leaves
  | e => [e]

/-- The conditions in a tree of conditionals. -/
def conditions : Expr → List Expr
  | conditional condition consequent alternative _ =>
    condition :: (consequent.conditions ++ alternative.conditions)
  | _ => []

/-- The conditionals in a tree of conditionals, the whole tree first. -/
def choices : Expr → List Expr
  | conditional condition consequent alternative span =>
    conditional condition consequent alternative span ::
      (consequent.choices ++ alternative.choices)
  | _ => []

theorem height_le_of_mem_leaves {leaf e : Expr} (h : leaf ∈ e.leaves) :
    leaf.height ≤ e.height := by
  fun_induction leaves e with
  | case1 condition consequent alternative span ihFirst ihSecond =>
    rw [height]
    rcases List.mem_append.1 h with h | h
    · have := ihFirst h
      omega
    · have := ihSecond h
      omega
  | case2 e => rw [List.mem_singleton.1 h]

theorem height_le_of_mem_conditions {condition e : Expr} (h : condition ∈ e.conditions) :
    condition.height ≤ e.height := by
  fun_induction conditions e with
  | case1 first consequent alternative span ihFirst ihSecond =>
    rw [height]
    rcases List.mem_cons.1 h with rfl | h
    · omega
    · rcases List.mem_append.1 h with h | h
      · have := ihFirst h
        omega
      · have := ihSecond h
        omega
  | case2 e => contradiction

end Expr

/-! ## Covering -/

namespace Tag

theorem mem_all (tag : Tag) : tag ∈ all := by
  cases tag <;> decide

/-- Covering a tag is having its members. -/
theorem covers_iff {wanted tag : Tag} (hwanted : wanted ∈ values) (hany : wanted ≠ any)
    (htag : tag ≠ undefined) :
    wanted.covers tag = true ↔ ∀ member ∈ tag.members, member ∈ wanted.members := by
  have hall : ∀ wanted ∈ values, wanted ≠ any → ∀ tag ∈ all, tag ≠ undefined →
      (wanted.covers tag = true ↔ ∀ member ∈ tag.members, member ∈ wanted.members) := by decide
  exact hall wanted hwanted hany tag tag.mem_all htag

/-- Two tags that a base type or a union covers have a join. -/
theorem join?_ne_none_of_covers {wanted a b : Tag} (hwanted : wanted ∈ values)
    (hany : wanted ≠ any) (ha : wanted.covers a = true) (hb : wanted.covers b = true) :
    a.join? b ≠ none := by
  have hall : ∀ wanted ∈ values, wanted ≠ any → ∀ a ∈ all, wanted.covers a = true →
      ∀ b ∈ all, wanted.covers b = true → a.join? b ≠ none := by decide
  exact hall wanted hwanted hany a a.mem_all ha b b.mem_all hb

/-- What covers some tags covers the tag that stands for all of them. -/
theorem SumsUp.covers {wanted tag : Tag} {tags : List Tag} (h : tag.SumsUp tags)
    (htag : tag ≠ undefined) (hwanted : wanted ∈ values)
    (htags : ∀ other ∈ tags, other ≠ undefined ∧ wanted.covers other = true) :
    wanted.covers tag = true := by
  by_cases hany : wanted = any
  · rw [Tag.covers, hany, join?_any (by decide) htag (.inl rfl), beq_self_eq_true]
  · have htag' : tag ≠ any := by
      rw [ne_eq, h.eq_any_iff]
      intro hmem
      have hcovers := (htags any hmem).2
      rw [covers_iff hwanted hany (by decide)] at hcovers
      exact hany (any_mem_members.1 (hcovers any (by decide)))
    rw [covers_iff hwanted hany htag]
    intro member hmember
    obtain ⟨other, hother, hmem⟩ := (h.mem_iff htag' member).1 hmember
    obtain ⟨hdefined, hcovers⟩ := htags other hother
    exact (covers_iff hwanted hany hdefined).1 hcovers member hmem

end Tag

/-! ## Resolving a tree of conditionals -/

/-- In a tree of conditionals, every condition is a boolean and every leaf has the tag that
`tagOf` says, one that `wanted` covers.  Nothing is found there, however deep they lie. -/
structure Expr.Choosing (env : Env) (wanted : Tag) (flag : Bool) (tagOf : Expr → Tag)
    (e : Expr) : Prop where
  conditions : ∀ condition ∈ e.conditions, ∀ depth, depth + condition.height ≤ env.limit →
    condition.resolve env (some .bool) depth flag = ⟨.bool, flag, []⟩
  leaves : ∀ leaf ∈ e.leaves, ∀ depth, depth + leaf.height ≤ env.limit →
    leaf.resolve env (some wanted) depth flag = ⟨tagOf leaf, flag, []⟩
  covered : ∀ leaf ∈ e.leaves, tagOf leaf ≠ .undefined ∧ wanted.covers (tagOf leaf) = true

namespace Expr.Choosing

variable {env : Env} {wanted : Tag} {flag : Bool} {tagOf : Expr → Tag}
  {condition consequent alternative : Expr} {span : Span}

theorem first
    (h : (conditional condition consequent alternative span).Choosing env wanted flag tagOf) :
    consequent.Choosing env wanted flag tagOf where
  conditions other hmem :=
    h.conditions other (List.mem_cons_of_mem _ (List.mem_append_left _ hmem))
  leaves leaf hmem := h.leaves leaf (List.mem_append_left _ hmem)
  covered leaf hmem := h.covered leaf (List.mem_append_left _ hmem)

theorem second
    (h : (conditional condition consequent alternative span).Choosing env wanted flag tagOf) :
    alternative.Choosing env wanted flag tagOf where
  conditions other hmem :=
    h.conditions other (List.mem_cons_of_mem _ (List.mem_append_right _ hmem))
  leaves leaf hmem := h.leaves leaf (List.mem_append_right _ hmem)
  covered leaf hmem := h.covered leaf (List.mem_append_right _ hmem)

/-- A conditional of the tree is left to its branches. -/
theorem resolve_conditional
    (h : (conditional condition consequent alternative span).Choosing env wanted flag tagOf)
    {depth : Nat}
    (hdepth : depth + (conditional condition consequent alternative span).height ≤ env.limit) :
    let first := consequent.resolve env (some wanted) (depth + 1) flag
    let second := alternative.resolve env (some wanted) (depth + 1) flag
    let verdict := resolveBranches (some wanted) first.tag second.tag consequent.span
      alternative.span
    (conditional condition consequent alternative span).resolve env (some wanted) depth flag =
      ⟨verdict.tag, flag, first.findings ++ second.findings ++ verdict.findings⟩ := by
  rw [height] at hdepth
  have hdeep : ¬env.limit ≤ depth := by omega
  have hcondition := h.conditions condition List.mem_cons_self (depth + 1) (by omega)
  have hflag : ∀ part : Expr, depth + 1 + part.height ≤ env.limit →
      (part.resolve env (some wanted) (depth + 1) flag).exceeded = flag := by
    intro part hpart
    rw [resolve_exceeded, decide_eq_false (by omega), Bool.or_false]
  rw [resolve, if_neg hdeep, hcondition]
  dsimp only
  rw [hflag consequent (by omega), hflag alternative (by omega)]
  rfl

/-- The leaves of a tree are covered, and so is what stands for them. -/
theorem covers {e : Expr} {tag : Tag} (h : e.Choosing env wanted flag tagOf)
    (hwanted : wanted ∈ Tag.values) (htag : tag ≠ .undefined)
    (hsum : tag.SumsUp (e.leaves.map tagOf)) : wanted.covers tag = true := by
  apply hsum.covers htag hwanted
  intro other hother
  obtain ⟨leaf, hleaf, rfl⟩ := List.mem_map.1 hother
  exact h.covered leaf hleaf

theorem of_leaf {e : Expr} (h : e.Choosing env wanted flag tagOf) (hleaf : e ∈ e.leaves)
    {depth : Nat} (hdepth : depth + e.height ≤ env.limit) :
    tagOf e ≠ .undefined ∧ (tagOf e).SumsUp [tagOf e] ∧
      e.resolve env (some wanted) depth flag = ⟨tagOf e, flag, []⟩ :=
  ⟨(h.covered e hleaf).1, .singleton _, h.leaves e hleaf depth hdepth⟩

end Expr.Choosing

/-- Some tag stands for the leaves of the tree. -/
def Expr.Common (tagOf : Expr → Tag) (e : Expr) : Prop :=
  ∃ tag : Tag, tag.SumsUp (e.leaves.map tagOf)

section

variable {env : Env} {wanted : Tag} {flag : Bool} {tagOf : Expr → Tag}

/-- A tree is accepted if the leaves of every choice in it have something in common.  A base
type or union as expectation sees to this. -/
theorem Expr.Choosing.accepted (hwanted : wanted ∈ Tag.values) :
    ∀ {e : Expr}, e.Choosing env wanted flag tagOf →
      (wanted ≠ .any ∨ ∀ choice ∈ e.choices, choice.Common tagOf) →
      ∀ depth, depth + e.height ≤ env.limit →
      ∃ tag : Tag, tag ≠ .undefined ∧ tag.SumsUp (e.leaves.map tagOf) ∧
        e.resolve env (some wanted) depth flag = ⟨tag, flag, []⟩
  | .literal _ _, h, _, depth, hdepth | .var _ _, h, _, depth, hdepth
  | .call _ _ _, h, _, depth, hdepth | .unary _ _ _, h, _, depth, hdepth
  | .binary _ _ _ _, h, _, depth, hdepth =>
    ⟨_, h.of_leaf (List.mem_singleton_self _) hdepth⟩
  | .conditional condition consequent alternative span, h, hcommon, depth, hdepth => by
    have hheight := hdepth
    rw [Expr.height] at hheight
    obtain ⟨first, hfirst, hsum₁, hresolve₁⟩ := h.first.accepted hwanted
      (hcommon.imp_right fun hall choice hmem =>
        hall choice (List.mem_cons_of_mem _ (List.mem_append_left _ hmem)))
      (depth + 1) (by omega)
    obtain ⟨second, hsecond, hsum₂, hresolve₂⟩ := h.second.accepted hwanted
      (hcommon.imp_right fun hall choice hmem =>
        hall choice (List.mem_cons_of_mem _ (List.mem_append_right _ hmem)))
      (depth + 1) (by omega)
    have hjoin : first.join? second ≠ none := by
      intro hnone
      rcases hcommon with hany | hall
      · exact Tag.join?_ne_none_of_covers hwanted hany (h.first.covers hwanted hfirst hsum₁)
          (h.second.covers hwanted hsecond hsum₂) hnone
      · obtain ⟨tag, htag⟩ := hall _ List.mem_cons_self
        rw [Expr.leaves, List.map_append] at htag
        exact Tag.not_sumsUp_of_join? hfirst hsecond hsum₁ hsum₂ hnone tag htag
    obtain ⟨joined, hjoined⟩ := Option.ne_none_iff_exists'.1 hjoin
    have hdefined := Tag.join?_ne_undefined hfirst hsecond hjoined
    have hsum : joined.SumsUp
        ((Expr.conditional condition consequent alternative span).leaves.map tagOf) := by
      rw [Expr.leaves, List.map_append]
      exact hsum₁.join hfirst hsecond hsum₂ hjoined
    have hcovers := h.covers hwanted hdefined hsum
    refine ⟨joined, hdefined, hsum, ?_⟩
    rw [h.resolve_conditional hdepth, hresolve₁, hresolve₂,
      resolveBranches_eq hfirst hsecond hjoined (.inr (.inr ⟨wanted, rfl, hcovers⟩))]
    rfl

/-- The branches of some conditional do not go together. -/
def ReportsBranches (findings : List Finding) : Prop :=
  ∃ finding ∈ findings, finding.code = .branchMismatch

/-- A tree is refused if the leaves of some choice in it have nothing in common.  The report
is on the lowest such choice, and all above it are `undefined`. -/
theorem Expr.Choosing.refused (hwanted : wanted ∈ Tag.values) :
    ∀ {e : Expr}, e.Choosing env wanted flag tagOf →
      (∃ choice ∈ e.choices, ¬choice.Common tagOf) →
      ∀ depth, depth + e.height ≤ env.limit →
      (e.resolve env (some wanted) depth flag).tag = .undefined ∧
        ReportsBranches (e.resolve env (some wanted) depth flag).findings
  | .literal _ _, _, hchoice, _, _ | .var _ _, _, hchoice, _, _ | .call _ _ _, _, hchoice, _, _
  | .unary _ _ _, _, hchoice, _, _ | .binary _ _ _ _, _, hchoice, _, _ => by
    obtain ⟨choice, hmem, -⟩ := hchoice
    contradiction
  | .conditional condition consequent alternative span, h, hchoice, depth, hdepth => by
    have hheight := hdepth
    rw [Expr.height] at hheight
    rw [h.resolve_conditional hdepth]
    by_cases hleft : ∃ choice ∈ consequent.choices, ¬choice.Common tagOf
    · obtain ⟨htag, finding, hmem, hcode⟩ :=
        h.first.refused hwanted hleft (depth + 1) (by omega)
      rw [resolveBranches_of_undefined (.inl htag)]
      exact ⟨rfl, finding, by simp [hmem], hcode⟩
    by_cases hright : ∃ choice ∈ alternative.choices, ¬choice.Common tagOf
    · obtain ⟨htag, finding, hmem, hcode⟩ :=
        h.second.refused hwanted hright (depth + 1) (by omega)
      rw [resolveBranches_of_undefined (.inr htag)]
      exact ⟨rfl, finding, by simp [hmem], hcode⟩
    · simp only [not_exists, not_and, not_not] at hleft hright
      obtain ⟨first, hfirst, hsum₁, hresolve₁⟩ :=
        h.first.accepted hwanted (.inr hleft) (depth + 1) (by omega)
      obtain ⟨second, hsecond, hsum₂, hresolve₂⟩ :=
        h.second.accepted hwanted (.inr hright) (depth + 1) (by omega)
      have hroot : ¬(Expr.conditional condition consequent alternative span).Common tagOf := by
        obtain ⟨choice, hmem, hcommon⟩ := hchoice
        rcases List.mem_cons.1 hmem with rfl | hmem
        · exact hcommon
        · exact absurd ((List.mem_append.1 hmem).elim (hleft choice) (hright choice)) hcommon
      have hjoin : first.join? second = none := by
        rw [Option.eq_none_iff_forall_ne_some]
        intro joined hjoined
        apply hroot
        refine ⟨joined, ?_⟩
        rw [Expr.leaves, List.map_append]
        exact hsum₁.join hfirst hsecond hsum₂ hjoined
      rw [hresolve₁, hresolve₂, resolveBranches, if_neg (not_or.2 ⟨hfirst, hsecond⟩), hjoin]
      exact ⟨rfl, _, List.mem_cons_self, rfl⟩

end

/-- What is silent from a starting point is silent at every depth within the limit. -/
theorem Context.resolve_silent {context : Context} {expected : Option Tag} {e : Expr}
    (hlog : ((context.expecting expected).resolve e).2.log = context.log)
    (hfits : context.depth + e.height ≤ context.limit) (depth : Nat)
    (hdepth : depth + e.height ≤ context.limit) :
    e.resolve ⟨context.scopes, context.limit⟩ expected depth context.exceeded =
      ⟨((context.expecting expected).resolve e).1, context.exceeded, []⟩ := by
  rw [e.resolve_limit context.scopes expected depth context.depth _ hdepth hfits]
  have hexceeded := e.resolve_exceeded ⟨context.scopes, context.limit⟩ expected context.depth
    context.exceeded
  rw [decide_eq_false (Nat.not_lt.2 hfits), Bool.or_false] at hexceeded
  have hfindings := (Log.record_eq_self_iff _ _).1 hlog
  let outcome := e.resolve ⟨context.scopes, context.limit⟩ expected context.depth context.exceeded
  show (⟨outcome.tag, outcome.exceeded, outcome.findings⟩ : Outcome) = _
  rw [show outcome.findings = [] from hfindings, show outcome.exceeded = _ from hexceeded]
  rfl

/-- A tree of conditionals within the limit.  Its conditions are booleans, and its leaves have
tags that `wanted` covers when it is expected of them.  None of them is reported. -/
structure Expr.Covered (context : Context) (wanted : Tag) (e : Expr) : Prop where
  fits : context.depth + e.height ≤ context.limit
  conditions : ∀ condition ∈ e.conditions,
    ((context.expecting (some .bool)).resolve condition).1 = .bool ∧
      ((context.expecting (some .bool)).resolve condition).2.log = context.log
  leaves : ∀ leaf ∈ e.leaves,
    ((context.expecting (some wanted)).resolve leaf).2.log = context.log
  covered : ∀ leaf ∈ e.leaves,
    ((context.expecting (some wanted)).resolve leaf).1 ≠ .undefined ∧
      wanted.covers ((context.expecting (some wanted)).resolve leaf).1 = true

theorem Expr.Covered.choosing {context : Context} {wanted : Tag} {e : Expr}
    (h : e.Covered context wanted) :
    e.Choosing ⟨context.scopes, context.limit⟩ wanted context.exceeded
      (fun leaf => ((context.expecting (some wanted)).resolve leaf).1) where
  conditions condition hmem depth hdepth := by
    obtain ⟨htag, hlog⟩ := h.conditions condition hmem
    have hheight := Expr.height_le_of_mem_conditions hmem
    have hfits := h.fits
    rw [Context.resolve_silent hlog (by omega) depth hdepth, htag]
  leaves leaf hmem depth hdepth := by
    have hheight := Expr.height_le_of_mem_leaves hmem
    have hfits := h.fits
    exact Context.resolve_silent (h.leaves leaf hmem) (by omega) depth hdepth
  covered := h.covered

/-- An expectation that covers every leaf of a tree of conditionals makes the tree acceptable,
if it is a base type or a union.  Then nothing is reported, and the expectation covers the tag
of the tree.  Under `any` this holds exactly if for every choice in the tree some tag stands
for its leaves together, which is not so for `int`, `str` and `bool`. -/
theorem resolve_covered_choices {e : Expr} {context : Context} {wanted : Tag}
    (hwanted : wanted ∈ Tag.values) (h : e.Covered context wanted) :
    let start := context.expecting (some wanted)
    let common (choice : Expr) := choice.Common fun leaf => (start.resolve leaf).1
    ((wanted ≠ .any ∨ ∀ choice ∈ e.choices, common choice) →
      ∃ tag, start.resolve e = (tag, start) ∧ wanted.covers tag = true) ∧
    (wanted = .any → (∃ choice ∈ e.choices, ¬common choice) →
      (start.resolve e).1 = .undefined ∧
        ∃ new, (start.resolve e).2.log.diagnostics = start.log.diagnostics ++ new ∧
          ∃ diagnostic ∈ new, diagnostic.code = .branchMismatch) := by
  intro start common
  have hchoosing := h.choosing
  constructor
  · intro hcommon
    obtain ⟨tag, htag, hsum, hresolve⟩ :=
      hchoosing.accepted hwanted hcommon context.depth h.fits
    refine ⟨tag, ?_, hchoosing.covers hwanted htag hsum⟩
    have hlog : start.log.record [] = start.log := (Log.record_eq_self_iff _ _).2 rfl
    simp only [Context.resolve, start, Context.expecting, hresolve]
    exact congrArg (fun log => (tag, { start with log := log })) hlog
  · intro _ hchoice
    obtain ⟨htag, finding, hmem, hcode⟩ :=
      hchoosing.refused hwanted hchoice context.depth h.fits
    exact ⟨htag, _, rfl, finding.diagnostic, List.mem_map_of_mem hmem, hcode⟩

/-- A starting point below the root with the limit reported, where `x` has the tag `any`. -/
def anyContext : Context where
  scopes := ⟨[], [[⟨⟨"x", ⟨0, 1⟩⟩, .value .any⟩]]⟩
  limit := 4
  expected := none
  depth := 1
  exceeded := true
  log := Log.empty.record [.tooDeep 4 ⟨8, 9⟩]

/-- The choice between `1` and `"a"`. -/
def numberOrText : Expr :=
  .conditional (.literal (.bool true) ⟨10, 14⟩) (.literal (.int "1") ⟨15, 16⟩)
    (.literal (.str "a") ⟨17, 20⟩) ⟨10, 20⟩

/-- The choice between `true` and `x`. -/
def truthOrAny : Expr :=
  .conditional (.literal (.bool true) ⟨21, 25⟩) (.literal (.bool true) ⟨26, 30⟩)
    (.var ⟨"x", ⟨31, 32⟩⟩ ⟨31, 32⟩) ⟨21, 32⟩

/-- The choice between two others. -/
def nestedChoice (consequent alternative : Expr) : Expr :=
  .conditional (.literal (.bool false) ⟨4, 9⟩) consequent alternative ⟨4, 32⟩

/-- With `x` in its branch, `true` goes together with `1` and `"a"`. -/
theorem resolve_covered_choices_nested :
    Tag.any ∈ Tag.values ∧
    (nestedChoice numberOrText truthOrAny).Covered anyContext .any ∧
    ∃ tag, (anyContext.expecting (some .any)).resolve (nestedChoice numberOrText truthOrAny) =
        (tag, anyContext.expecting (some .any)) ∧
      Tag.any.covers tag = true := by
  have hvalue : Tag.any ∈ Tag.values := by decide
  have hcovered : (nestedChoice numberOrText truthOrAny).Covered anyContext .any :=
    ⟨by decide, by decide, by decide, by decide⟩
  have hnumber : Tag.intOrStr.SumsUp [.int, .str] :=
    (Tag.SumsUp.singleton .int).join (by decide) (by decide) (.singleton .str) rfl
  have htruth : Tag.any.SumsUp [.bool, .any] :=
    (Tag.SumsUp.singleton .bool).join (by decide) (by decide) (.singleton .any) rfl
  have hboth : Tag.any.SumsUp [.int, .str, .bool, .any] :=
    hnumber.join (by decide) (by decide) htruth rfl
  have hchoices : (nestedChoice numberOrText truthOrAny).choices =
      [nestedChoice numberOrText truthOrAny, numberOrText, truthOrAny] := rfl
  refine ⟨hvalue, hcovered, (resolve_covered_choices hvalue hcovered).1 (.inr ?_)⟩
  rw [hchoices]
  simp only [List.forall_mem_cons]
  exact ⟨⟨_, hboth⟩, ⟨_, hnumber⟩, ⟨_, htruth⟩, List.forall_mem_nil _⟩

/-- Without `x`, the three base types do not go together, although `any` covers each. -/
theorem resolve_refuses_covered_choice :
    (nestedChoice numberOrText (.literal (.bool true) ⟨26, 30⟩)).Covered anyContext .any ∧
    ((anyContext.expecting (some .any)).resolve
        (nestedChoice numberOrText (.literal (.bool true) ⟨26, 30⟩))).1 = .undefined ∧
    ((anyContext.expecting (some .any)).resolve
        (nestedChoice numberOrText (.literal (.bool true) ⟨26, 30⟩))).2.log.diagnostics.map
          (·.code) = [.nestingTooDeep, .branchMismatch] :=
  ⟨⟨by decide, by decide, by decide, by decide⟩, by decide, by decide⟩

end TagLang
