import Mathlib.Data.List.Forall2
import TagLang.Proofs.Scoping
import TagLang.Proofs.Typing

/-!
# What `undefined` absorbs

Two runs of the analysis over one program, of which the first knows less.  It may
have a lower limit, and it may have rejected ascriptions where the second run reads
`any`.  Whatever the first run does not know has the tag `undefined`.  The law of
this module is that nothing follows from that: the first run finds nothing that the
second does not find too.

There are four groups.

* The relations.  `Tag.Vaguer` compares the tags of expressions and `Tag.Looser` the
  tags of declarations and expectations, which are never unknown but only rejected.
  `FoundIn` compares findings, as far as `keep` says that they count.
* The nodes.  For each kind of node, vaguer parts give a vaguer node.  `Plan.Vaguer` puts
  them together, `Expr.plan_vaguer`, and a vaguer plan has a vaguer outcome,
  `Plan.Vaguer.run`.
* `Expr.resolve_vaguer`, the induction over expressions.
* `analyzeItems_vaguer`, the induction over items.

A rejected variable that is called is reported with the tag `undefined`.  This is the
one finding that the second run words differently, so `Tag.Looser` asks that it does
not count where the second run reads `any`.
-/

namespace TagLang

/-! ## Tags and findings of two runs -/

/-- The first tag is the second one, or it is not known. -/
def Tag.Vaguer (vague exact : Tag) : Prop :=
  vague = exact ∨ vague = .undefined

/-- The first tag is the second one, or the first is rejected and the second is `any`.
In the latter case a call of a rejected variable does not count as a finding. -/
def Tag.Looser (keep : Finding → Bool) (vague exact : Tag) : Prop :=
  vague = exact ∨
    vague = .undefined ∧ exact = .any ∧ ∀ name, keep (.notCallable name .undefined) = false

/-- The findings that count are found in the other run too, in the same order. -/
def FoundIn (keep : Finding → Bool) (few many : List Finding) : Prop :=
  (few.filter keep).Sublist (many.filter keep)

/-- Whether the limit has been reported is the same in both runs, unless such a report
does not count. -/
def Flagged (keep : Finding → Bool) (limit limit' : Nat) (flag flag' : Bool) : Prop :=
  (∀ limit span, keep (.tooDeep limit span) = false) ∨ limit = limit' ∧ flag = flag'

variable {keep : Finding → Bool}

theorem Tag.Vaguer.refl (tag : Tag) : tag.Vaguer tag :=
  .inl rfl

theorem Tag.Looser.refl (tag : Tag) : tag.Looser keep tag :=
  .inl rfl

theorem Tag.Looser.vaguer {vague exact : Tag} (h : vague.Looser keep exact) :
    vague.Vaguer exact :=
  h.imp_right And.left

theorem FoundIn.refl (findings : List Finding) : FoundIn keep findings findings :=
  List.Sublist.refl _

theorem FoundIn.nil (findings : List Finding) : FoundIn keep [] findings :=
  List.nil_sublist _

theorem FoundIn.append {few few' many many' : List Finding} (h : FoundIn keep few many)
    (h' : FoundIn keep few' many') : FoundIn keep (few ++ few') (many ++ many') := by
  unfold FoundIn
  rw [List.filter_append, List.filter_append]
  exact List.Sublist.append h h'

/-- The verdict of a run that knows less. -/
structure Verdict.Vaguer (keep : Finding → Bool) (vague exact : Verdict) : Prop where
  tag : vague.tag.Vaguer exact.tag
  findings : FoundIn keep vague.findings exact.findings

theorem Verdict.Vaguer.refl (verdict : Verdict) : verdict.Vaguer keep verdict :=
  ⟨.refl _, .refl _⟩

/-- Nothing is vaguer than an unknown tag without a finding. -/
theorem Verdict.Vaguer.unknown (verdict : Verdict) :
    (⟨.undefined, []⟩ : Verdict).Vaguer keep verdict :=
  ⟨.inr rfl, .nil _⟩

/-! ## Nodes -/

theorem resolveUnary_vaguer (op : UnaryOp) {vague exact : Tag} (h : vague.Vaguer exact)
    (place whole : Span) :
    (resolveUnary op vague place whole).Vaguer keep (resolveUnary op exact place whole) := by
  rcases h with rfl | rfl
  · exact .refl _
  · rw [resolveUnary, if_pos rfl]
    exact .unknown _

theorem resolveBinary_vaguer (op : BinaryOp) {left left' right right' : Tag}
    (hleft : left.Vaguer left') (hright : right.Vaguer right') (place place' whole : Span) :
    (resolveBinary op left right place place' whole).Vaguer keep
      (resolveBinary op left' right' place place' whole) := by
  by_cases hunknown : left = .undefined ∨ right = .undefined
  · rw [resolveBinary, if_pos hunknown]
    exact .unknown _
  · obtain rfl := hleft.resolve_right fun h => hunknown (.inl h)
    obtain rfl := hright.resolve_right fun h => hunknown (.inr h)
    exact .refl _

theorem checkCondition_foundIn {vague exact : Tag} (h : vague.Vaguer exact) (span : Span) :
    FoundIn keep (checkCondition vague span) (checkCondition exact span) := by
  rcases h with rfl | rfl
  · exact .refl _
  · exact .nil _

/-- A rejected expectation covers what `any` covers. -/
theorem Tag.Looser.covers {vague exact : Tag} (h : vague.Looser keep exact) {joined : Tag}
    (hjoined : joined ≠ .undefined) : vague.covers joined = exact.covers joined := by
  rcases h with rfl | ⟨rfl, rfl, -⟩
  · rfl
  · revert hjoined
    cases joined <;> decide

theorem resolveBranches_vaguer {expected expected' : Option Tag}
    (hexpected : Option.Rel (Tag.Looser keep) expected expected')
    {first first' second second' : Tag} (hfirst : first.Vaguer first')
    (hsecond : second.Vaguer second') (place place' : Span) :
    (resolveBranches expected first second place place').Vaguer keep
      (resolveBranches expected' first' second' place place') := by
  by_cases hunknown : first = .undefined ∨ second = .undefined
  · rw [resolveBranches, if_pos hunknown]
    exact .unknown _
  · obtain rfl := hfirst.resolve_right fun h => hunknown (.inl h)
    obtain rfl := hsecond.resolve_right fun h => hunknown (.inr h)
    have hsame : resolveBranches expected first second place place' =
        resolveBranches expected' first second place place' := by
      cases hexpected with
      | none => rfl
      | @some vague exact hlooser =>
        rw [resolveBranches, resolveBranches, if_neg hunknown, if_neg hunknown]
        cases hjoin : first.join? second with
        | none => rfl
        | some joined =>
          rw [not_or] at hunknown
          have hjoined := Tag.join?_ne_undefined hunknown.1 hunknown.2 hjoin
          simp only [Option.any_some, hlooser.covers hjoined]
    rw [hsame]
    exact .refl _

/-- An unknown condition leaves the conditional unknown. -/
theorem decided_vaguer {vague exact : Tag} (h : vague.Vaguer exact) {verdict verdict' : Verdict}
    (hverdict : verdict.Vaguer keep verdict') :
    (if decides vague then verdict else ⟨.undefined, []⟩ : Verdict).Vaguer keep
      (if decides exact then verdict' else ⟨.undefined, []⟩) := by
  rcases h with rfl | rfl
  · split
    · exact hverdict
    · exact .refl _
  · exact .unknown _

theorem checkArgument_foundIn (callee : Name) (index : Nat) {expected expected' : Option Tag}
    (hexpected : Option.Rel (Tag.Looser keep) expected expected') {vague exact : Tag}
    (h : vague.Vaguer exact) (span : Span) :
    FoundIn keep (checkArgument callee index expected vague span)
      (checkArgument callee index expected' exact span) := by
  cases hexpected with
  | none => exact .refl _
  | some hlooser =>
    rcases h with rfl | rfl
    · rcases hlooser with rfl | ⟨rfl, rfl, -⟩
      · exact .refl _
      · have hnone : checkArgument callee index (some .undefined) vague span = [] :=
          if_pos (.inr rfl)
        rw [hnone]
        exact .nil _
    · rw [checkArgument, if_pos (.inl rfl)]
      exact .nil _

/-! ## Declarations of two runs -/

/-- Parameters of which some may be rejected. -/
inductive Parameters.Looser (keep : Finding → Bool) : Parameters → Parameters → Prop where
  | counted {count : Nat} : Looser keep (.counted count) (.counted count)
  | tagged {tags tags' : List Tag} :
      List.Forall₂ (Tag.Looser keep) tags tags' → Looser keep (.tagged tags) (.tagged tags')

/-- A symbol whose tags may be rejected. -/
inductive Symbol.Looser (keep : Finding → Bool) : Symbol → Symbol → Prop where
  | value {kind kind' : Tag} :
      kind.Looser keep kind' → Looser keep (.value kind) (.value kind')
  | function {parameters parameters' : Parameters} {result result' : Tag} :
      parameters.Looser keep parameters' → result.Looser keep result' →
      Looser keep (.function ⟨parameters, result⟩) (.function ⟨parameters', result'⟩)

/-- The same name, for a symbol whose tags may be rejected. -/
structure Declaration.Looser (keep : Finding → Bool) (vague exact : Declaration) : Prop where
  name : vague.name = exact.name
  symbol : vague.symbol.Looser keep exact.symbol

/-- The same names in the same order. -/
def Scope.Looser (keep : Finding → Bool) (vague exact : Scope) : Prop :=
  List.Forall₂ (Declaration.Looser keep) vague exact

/-- The same names in the same scopes. -/
structure Scopes.Looser (keep : Finding → Bool) (vague exact : Scopes) : Prop where
  current : vague.current.Looser keep exact.current
  outer : List.Forall₂ (Scope.Looser keep) vague.outer exact.outer

/-- A run that knows less: it has a lower limit, and tags of declarations may be
rejected. -/
structure Env.Vaguer (keep : Finding → Bool) (vague exact : Env) : Prop where
  limit : vague.limit ≤ exact.limit
  scopes : vague.scopes.Looser keep exact.scopes

theorem Parameters.Looser.refl (parameters : Parameters) : parameters.Looser keep parameters := by
  cases parameters with
  | counted count => exact .counted
  | tagged tags => exact .tagged (List.forall₂_same.2 fun tag _ => .refl tag)

theorem Symbol.Looser.refl (symbol : Symbol) : symbol.Looser keep symbol := by
  cases symbol with
  | value kind => exact .value (.refl kind)
  | function signature => exact .function (.refl _) (.refl _)

theorem Scope.Looser.refl (scope : Scope) : scope.Looser keep scope :=
  List.forall₂_same.2 fun declaration _ => ⟨rfl, .refl declaration.symbol⟩

theorem Scopes.Looser.refl (scopes : Scopes) : scopes.Looser keep scopes :=
  ⟨.refl _, List.forall₂_same.2 fun scope _ => .refl scope⟩

theorem Scope.Looser.find? {vague exact : Scope} (h : vague.Looser keep exact) (text : String) :
    Option.Rel (Declaration.Looser keep) (vague.find? text) (exact.find? text) := by
  unfold Scope.Looser at h
  unfold Scope.find?
  induction h with
  | nil => exact .none
  | cons hfirst _ ih =>
    rw [List.find?_cons, List.find?_cons, hfirst.name]
    split
    · exact .some hfirst
    · exact ih

theorem Scopes.Looser.findSome? {vague exact : List Scope}
    (h : List.Forall₂ (Scope.Looser keep) vague exact) (text : String) :
    Option.Rel (Declaration.Looser keep) (vague.findSome? (·.find? text))
      (exact.findSome? (·.find? text)) := by
  induction h with
  | nil => exact .none
  | @cons scope scope' _ _ hfirst _ ih =>
    rw [List.findSome?_cons, List.findSome?_cons]
    have hfound := hfirst.find? text
    generalize scope.find? text = found, scope'.find? text = found' at hfound ⊢
    cases hfound with
    | none => exact ih
    | some hdeclaration => exact .some hdeclaration

theorem Scopes.Looser.symbol? {vague exact : Scopes} (h : vague.Looser keep exact)
    (text : String) :
    Option.Rel (Symbol.Looser keep) (vague.symbol? text) (exact.symbol? text) := by
  have hfound : Option.Rel (Declaration.Looser keep) (vague.find? text) (exact.find? text) :=
    Scopes.Looser.findSome? (.cons h.current h.outer) text
  unfold Scopes.symbol?
  generalize vague.find? text = found, exact.find? text = found' at hfound ⊢
  cases hfound with
  | none => exact .none
  | some hdeclaration => exact .some hdeclaration.symbol

theorem resolveName_vaguer {vague exact : Scopes} (h : vague.Looser keep exact) (name : Name) :
    (resolveName vague name).Vaguer keep (resolveName exact name) := by
  have hfound := h.symbol? name.text
  unfold resolveName
  generalize vague.symbol? name.text = found, exact.symbol? name.text = found' at hfound ⊢
  cases hfound with
  | none => exact .refl _
  | some hsymbol =>
    cases hsymbol with
    | value hkind => exact ⟨hkind.vaguer, .refl _⟩
    | function _ _ => exact .refl _

theorem Parameters.Looser.count {vague exact : Parameters} (h : vague.Looser keep exact) :
    vague.count = exact.count := by
  cases h with
  | counted => rfl
  | tagged htags => exact htags.length_eq

theorem Parameters.Looser.tags? {vague exact : Parameters} (h : vague.Looser keep exact) :
    List.Forall₂ (Tag.Looser keep) (vague.tags?.getD []) (exact.tags?.getD []) := by
  cases h with
  | counted => exact .nil
  | tagged htags => exact htags

theorem checkCallee_foundIn {vague exact : Scopes} (h : vague.Looser keep exact) (callee : Name)
    (given : Nat) (span : Span) :
    FoundIn keep (checkCallee vague callee given span) (checkCallee exact callee given span) := by
  have hfound := h.symbol? callee.text
  unfold checkCallee
  generalize vague.symbol? callee.text = found, exact.symbol? callee.text = found' at hfound ⊢
  cases hfound with
  | none => exact .refl _
  | some hsymbol =>
    cases hsymbol with
    | value hkind =>
      rcases hkind with rfl | ⟨rfl, rfl, hkeep⟩
      · exact .refl _
      · unfold FoundIn
        rw [List.filter_singleton, hkeep]
        exact List.nil_sublist _
    | function hparameters _ =>
      dsimp only
      rw [hparameters.count]
      exact .refl _

theorem parameterTags_looser {vague exact : Scopes} (h : vague.Looser keep exact)
    (callee : Name) :
    List.Forall₂ (Tag.Looser keep) (parameterTags vague callee) (parameterTags exact callee) := by
  have hfound := h.symbol? callee.text
  unfold parameterTags signatureOf?
  generalize vague.symbol? callee.text = found, exact.symbol? callee.text = found' at hfound ⊢
  cases hfound with
  | none => exact .nil
  | some hsymbol =>
    cases hsymbol with
    | value _ => exact .nil
    | function hparameters _ => exact hparameters.tags?

theorem resultTag_looser {vague exact : Scopes} (h : vague.Looser keep exact) (callee : Name) :
    (resultTag vague callee).Looser keep (resultTag exact callee) := by
  have hfound := h.symbol? callee.text
  unfold resultTag signatureOf?
  generalize vague.symbol? callee.text = found, exact.symbol? callee.text = found' at hfound ⊢
  cases hfound with
  | none => exact .refl _
  | some hsymbol =>
    cases hsymbol with
    | value _ => exact .refl _
    | function _ hresult => exact hresult

/-! ## Expressions -/

/-- The outcome of a run that knows less. -/
structure Outcome.Vaguer (keep : Finding → Bool) (limit limit' : Nat) (vague exact : Outcome) :
    Prop where
  tag : vague.tag.Vaguer exact.tag
  exceeded : Flagged keep limit limit' vague.exceeded exact.exceeded
  findings : FoundIn keep vague.findings exact.findings

/-- A node at the limit of the first run is unknown there, whatever the second run
makes of it. -/
theorem tooDeep_vaguer {env env' : Env} {depth : Nat} (hdeep : env.limit ≤ depth)
    {flag flag' : Bool} (hflag : Flagged keep env.limit env'.limit flag flag')
    (e : Expr) (expected' : Option Tag) :
    Outcome.Vaguer keep env.limit env'.limit (tooDeep env.limit flag e.span)
      (e.resolve env' expected' depth flag') := by
  rcases hflag with hkeep | ⟨heq, rfl⟩
  · refine ⟨.inr rfl, .inl hkeep, ?_⟩
    have hnone : (tooDeep env.limit flag e.span).findings.filter keep = [] := by
      cases flag <;> simp [tooDeep, hkeep]
    unfold FoundIn
    rw [hnone]
    exact List.nil_sublist _
  · rw [Expr.resolve_of_limit_le (by omega), ← heq]
    exact ⟨.refl _, .inr ⟨rfl, rfl⟩, .refl _⟩

theorem Tag.Looser.head? {tags tags' : List Tag} (h : List.Forall₂ (Tag.Looser keep) tags tags') :
    Option.Rel (Tag.Looser keep) tags.head? tags'.head? := by
  cases h with
  | nil => exact .none
  | cons hfirst _ => exact .some hfirst

theorem Tag.Looser.tail {tags tags' : List Tag} (h : List.Forall₂ (Tag.Looser keep) tags tags') :
    List.Forall₂ (Tag.Looser keep) tags.tail tags'.tail := by
  cases h with
  | nil => exact .nil
  | cons _ hrest => exact hrest

/-- An expectation that the node itself sets is the same in both runs. -/
theorem Tag.Looser.rel_refl (expected : Option Tag) :
    Option.Rel (Tag.Looser keep) expected expected := by
  cases expected with
  | none => exact .none
  | some tag => exact .some (.refl tag)

/-- The plan of a run that knows less: the same parts come in the same order, and vaguer tags of
them are followed by a vaguer plan. -/
inductive Plan.Vaguer (keep : Finding → Bool) : Plan → Plan → Prop where
  | done {vague exact : Tag} : vague.Vaguer exact → Vaguer keep (.done vague) (.done exact)
  | report {argument : Option Nat} {few many : List Finding} {next next' : Plan} :
      FoundIn keep few many → Vaguer keep next next' →
      Vaguer keep (.report argument few next) (.report argument many next')
  | part {e : Expr} {expected expected' : Option Tag} {next next' : Tag → Plan} :
      Option.Rel (Tag.Looser keep) expected expected' →
      (∀ vague exact, vague.Vaguer exact → Vaguer keep (next vague) (next' exact)) →
      Vaguer keep (.part e expected next) (.part e expected' next')

theorem Plan.Vaguer.conclude {vague exact : Verdict} (h : vague.Vaguer keep exact) :
    Plan.Vaguer keep (.conclude vague) (.conclude exact) :=
  .report h.findings (.done h.tag)

/-- A vaguer plan has a vaguer outcome.  The flag passes from each part to the next one. -/
theorem Plan.Vaguer.run {plan plan' : Plan} (h : plan.Vaguer keep plan') {parts : List Expr}
    (hthrough : plan.Through parts) {limit limit' : Nat} {resolve resolve' : Resolver}
    (hparts : ∀ part ∈ parts, ∀ {expected expected' : Option Tag} {flag flag' : Bool},
      Option.Rel (Tag.Looser keep) expected expected' → Flagged keep limit limit' flag flag' →
      Outcome.Vaguer keep limit limit' (resolve part expected flag)
        (resolve' part expected' flag'))
    {flag flag' : Bool} (hflag : Flagged keep limit limit' flag flag') :
    Outcome.Vaguer keep limit limit' (plan.run resolve flag) (plan'.run resolve' flag') := by
  induction h generalizing parts flag flag' with
  | done htag => exact ⟨htag, hflag, .refl _⟩
  | report hfindings _ ih =>
    cases hthrough with
    | report hnext =>
      have hrest := ih hnext hparts hflag
      exact ⟨hrest.tag, hrest.exceeded, hfindings.append hrest.findings⟩
  | part hexpected _ ih =>
    cases hthrough with
    | part hnext =>
      obtain ⟨hfirst, hothers⟩ := List.forall_mem_cons.1 hparts
      have hpart := hfirst hexpected hflag
      have hrest := ih _ _ hpart.tag (hnext _) hothers hpart.exceeded
      exact ⟨hrest.tag, hrest.exceeded, hpart.findings.append hrest.findings⟩

/-- The plans for the arguments of a call.  What is known to be `undefined` in the second run is
in the first one too. -/
theorem Plan.Vaguer.ofArguments (callee : Name) {result result' : Tag}
    (hresult : result.Vaguer result') (arguments : List Expr) :
    ∀ (index : Nat) {tags tags' : List Tag} {anyUndefined anyUndefined' : Bool},
      List.Forall₂ (Tag.Looser keep) tags tags' →
      (anyUndefined' = true → anyUndefined = true) →
      Plan.Vaguer keep (.ofArguments callee result index tags anyUndefined arguments)
        (.ofArguments callee result' index tags' anyUndefined' arguments) := by
  induction arguments with
  | nil =>
    intro index tags tags' anyUndefined anyUndefined' _ hany
    cases anyUndefined with
    | true => exact .done (.inr rfl)
    | false =>
      cases anyUndefined' with
      | true => exact absurd (hany rfl) Bool.false_ne_true
      | false => exact .done hresult
  | cons argument rest ih =>
    intro index tags tags' anyUndefined anyUndefined' htags hany
    have hhead := Tag.Looser.head? htags
    refine .part hhead fun vague exact htag => ?_
    refine .report (checkArgument_foundIn callee index hhead htag argument.span) ?_
    apply ih (index + 1) (Tag.Looser.tail htags)
    simp only [Bool.or_eq_true, beq_iff_eq]
    rintro (hexact | hexact)
    · exact .inl (hany hexact)
    · exact .inr (htag.elim (fun heq => heq.trans hexact) id)

/-- A run that knows less has vaguer plans. -/
theorem Expr.plan_vaguer {vague exact : Scopes} (h : vague.Looser keep exact)
    {expected expected' : Option Tag} (hexpected : Option.Rel (Tag.Looser keep) expected expected')
    (e : Expr) : (e.plan vague expected).Vaguer keep (e.plan exact expected') := by
  cases e with
  | literal value span => exact .done (.refl _)
  | var name span => exact .conclude (resolveName_vaguer h name)
  | call callee arguments span =>
    exact .report (checkCallee_foundIn h callee arguments.length span)
      (.ofArguments callee (resultTag_looser h callee).vaguer arguments 0
        (parameterTags_looser h callee) id)
  | unary op operand span =>
    refine .part .none fun vague exact htag => ?_
    exact .conclude (resolveUnary_vaguer op htag operand.span span)
  | binary op left right span =>
    refine .part .none fun left' left'' hleft => .part .none fun right' right'' hright => ?_
    exact .conclude (resolveBinary_vaguer op hleft hright left.span right.span span)
  | conditional condition consequent alternative span =>
    refine .part (Tag.Looser.rel_refl (some .bool)) fun found found' hfound => ?_
    refine .report (checkCondition_foundIn hfound condition.span) ?_
    refine .part hexpected fun first first' hfirst =>
      .part hexpected fun second second' hsecond => ?_
    exact .conclude (decided_vaguer hfound (resolveBranches_vaguer hexpected hfirst hsecond
      consequent.span alternative.span))

/-- A run that knows less has a vaguer outcome.  The induction is on the expression. -/
theorem Expr.resolve_vaguer {env env' : Env} (h : env.Vaguer keep env') (e : Expr) :
    ∀ {expected expected' : Option Tag} (depth : Nat) {flag flag' : Bool},
      Option.Rel (Tag.Looser keep) expected expected' →
      Flagged keep env.limit env'.limit flag flag' →
      Outcome.Vaguer keep env.limit env'.limit (e.resolve env expected depth flag)
        (e.resolve env' expected' depth flag') := by
  induction e using Expr.induction_parts with
  | h e ih =>
    intro expected expected' depth flag flag' hexpected hflag
    rcases Nat.lt_or_ge depth env.limit with hdepth | hdeep
    · have hdepth' : depth < env'.limit := Nat.lt_of_lt_of_le hdepth h.limit
      rw [Expr.resolve_of_lt hdepth, Expr.resolve_of_lt hdepth']
      apply (e.plan_vaguer h.scopes hexpected).run (e.plan_through _ _) _ hflag
      intro part hpart expected expected' flag flag'
      exact ih part hpart (depth + 1)
    · rw [Expr.resolve_of_limit_le hdeep]
      exact tooDeep_vaguer hdeep hflag e expected'

/-! ## Items -/

/-- The parameter with its ascription read in another way. -/
def Parameter.reread (reading : Ascription → Ascription) (parameter : Parameter) : Parameter :=
  { parameter with ascription := parameter.ascription.map reading }

/-- The declaration of a variable with its ascription read in another way. -/
def VarDecl.reread (reading : Ascription → Ascription) (declaration : VarDecl) : VarDecl :=
  { declaration with ascription := reading declaration.ascription }

/-- The declaration of a function with its ascriptions read in another way. -/
def FnDecl.reread (reading : Ascription → Ascription) (declaration : FnDecl) : FnDecl :=
  { declaration with
    parameters := declaration.parameters.map (·.reread reading)
    result := reading declaration.result }

mutual

/-- The item with its ascriptions read in another way. -/
def Item.reread (reading : Ascription → Ascription) : Item → Item
  | .var declaration => .var (declaration.reread reading)
  | .fn declaration => .fn (declaration.reread reading)
  | .block items span => .block (rereadItems reading items) span
  | .expr e => .expr e

/-- Items with their ascriptions read in another way. -/
def rereadItems (reading : Ascription → Ascription) : List Item → List Item
  | [] => []
  | item :: rest => item.reread reading :: rereadItems reading rest

end

/-- A reading that replaces rejected ascriptions only. -/
structure Lenient (keep : Finding → Bool) (reading : Ascription → Ascription) : Prop where
  tag : ∀ ascription : Ascription,
    ascription.resolve.tag.Looser keep (reading ascription).resolve.tag
  findings : ∀ ascription : Ascription,
    FoundIn keep ascription.resolve.findings (reading ascription).resolve.findings

/-- The same expression statement with a vaguer tag. -/
structure Statement.Vaguer (vague exact : Statement) : Prop where
  span : vague.span = exact.span
  tag : vague.tag.Vaguer exact.tag

/-- The analysis of a run that knows less. -/
structure Analysis.Vaguer (keep : Finding → Bool) (vague exact : Analysis) : Prop where
  scopes : vague.scopes.Looser keep exact.scopes
  findings : FoundIn keep vague.findings exact.findings
  statements : List.Forall₂ Statement.Vaguer vague.statements exact.statements

theorem Scopes.Looser.enter {vague exact : Scopes} (h : vague.Looser keep exact) :
    vague.enter.Looser keep exact.enter :=
  ⟨.nil, .cons h.current h.outer⟩

theorem Scopes.Looser.add {vague exact : Scopes} (h : vague.Looser keep exact)
    {declaration declaration' : Declaration} (hdeclaration : declaration.Looser keep declaration') :
    (vague.add declaration).Looser keep (exact.add declaration') := by
  refine ⟨?_, h.outer⟩
  have hfound := h.current.find? declaration.name.text
  unfold Scopes.add Scope.add
  dsimp only
  rw [← hdeclaration.name]
  generalize vague.current.find? declaration.name.text = found,
    exact.current.find? declaration.name.text = found' at hfound ⊢
  cases hfound with
  | some _ => exact h.current
  | none => exact List.rel_append h.current (.cons hdeclaration .nil)

theorem Scopes.Looser.shadowed? {vague exact : Scopes} (h : vague.Looser keep exact)
    (text : String) : vague.shadowed? text = exact.shadowed? text := by
  have hfound := Scopes.Looser.findSome? h.outer text
  unfold Scopes.shadowed?
  generalize vague.outer.findSome? (·.find? text) = found,
    exact.outer.findSome? (·.find? text) = found' at hfound ⊢
  cases hfound with
  | none => rfl
  | some hdeclaration => simp [hdeclaration.name]

/-- Where a name is declared does not depend on the tags. -/
theorem declareName_findings {vague exact : Scopes} (h : vague.Looser keep exact) (name : Name)
    (symbol symbol' : Symbol) :
    (declareName vague name symbol).findings = (declareName exact name symbol').findings := by
  have hfound := h.current.find? name.text
  unfold declareName Scopes.declare
  rw [h.shadowed? name.text]
  generalize vague.current.find? name.text = found,
    exact.current.find? name.text = found' at hfound ⊢
  cases hfound with
  | some hdeclaration => simp [hdeclaration.name]
  | none => cases exact.shadowed? name.text <;> rfl

theorem Tag.accepts_undefined (tag : Tag) : tag.accepts .undefined = true := by
  cases tag <;> rfl

theorem Tag.undefined_accepts (tag : Tag) : Tag.undefined.accepts tag = true := by
  cases tag <;> rfl

theorem VarDecl.checkInitializer_foundIn {env env' : Env} (h : env.Vaguer keep env')
    (hflag : Flagged keep env.limit env'.limit false false) (reading : Ascription → Ascription)
    (declaration : VarDecl) {declared declared' : Tag}
    (hdeclared : declared.Looser keep declared') :
    FoundIn keep (declaration.checkInitializer env declared)
      ((declaration.reread reading).checkInitializer env' declared') := by
  unfold VarDecl.checkInitializer VarDecl.reread
  cases declaration.initializer with
  | none => exact .refl _
  | some e =>
    have hinner := e.resolve_vaguer h 0 (.some hdeclared) hflag
    refine hinner.findings.append ?_
    rcases hinner.tag with htag | htag
    · rcases hdeclared with rfl | ⟨rfl, rfl, -⟩
      · rw [htag]
        exact .refl _
      · rw [if_pos (Tag.undefined_accepts _)]
        exact .nil _
    · rw [htag, if_pos (Tag.accepts_undefined _)]
      exact .nil _

theorem FnDecl.ascriptions_reread (reading : Ascription → Ascription) (declaration : FnDecl) :
    (declaration.reread reading).ascriptions = declaration.ascriptions.map reading := by
  unfold FnDecl.ascriptions FnDecl.reread
  rw [List.filterMap_map, List.map_filterMap]
  rfl

theorem FnDecl.knownParameters_looser {reading : Ascription → Ascription}
    (hreading : Lenient keep reading) (declaration : FnDecl) :
    declaration.knownParameters.Looser keep (declaration.reread reading).knownParameters := by
  have hall : (declaration.reread reading).parameters.all (·.ascription.isSome) =
      declaration.parameters.all (·.ascription.isSome) := by
    simp [FnDecl.reread, Parameter.reread, Function.comp_def]
  unfold FnDecl.knownParameters
  rw [hall, FnDecl.ascriptions_reread]
  split
  · refine .tagged ?_
    rw [List.map_map, List.forall₂_map_left_iff, List.forall₂_map_right_iff]
    exact List.forall₂_same.2 fun ascription _ => hreading.tag ascription
  · simp only [FnDecl.reread, List.length_map]
    exact .counted

theorem Lenient.flatMap {reading : Ascription → Ascription} (hreading : Lenient keep reading)
    (ascriptions : List Ascription) :
    FoundIn keep (ascriptions.flatMap (·.resolve.findings))
      ((ascriptions.map reading).flatMap (·.resolve.findings)) := by
  induction ascriptions with
  | nil => exact .nil _
  | cons ascription rest ih => exact (hreading.findings ascription).append ih

theorem VarDecl.analyze_vaguer {env env' : Env} (h : env.Vaguer keep env')
    (hflag : Flagged keep env.limit env'.limit false false)
    {reading : Ascription → Ascription} (hreading : Lenient keep reading)
    (declaration : VarDecl) :
    (declaration.analyze env).Vaguer keep ((declaration.reread reading).analyze env') := by
  have htag := hreading.tag declaration.ascription
  refine ⟨?_, ?_, ?_⟩
  · rw [VarDecl.analyze_scopes, VarDecl.analyze_scopes]
    exact h.scopes.add ⟨rfl, .value htag⟩
  · refine ((hreading.findings declaration.ascription).append
      (declaration.checkInitializer_foundIn h hflag reading htag)).append ?_
    rw [declareName_findings h.scopes]
    exact .refl _
  · rw [VarDecl.analyze, VarDecl.analyze]
    simp only [declareName_statements]
    exact .nil

theorem FnDecl.analyze_vaguer {env env' : Env} (h : env.Vaguer keep env')
    {reading : Ascription → Ascription} (hreading : Lenient keep reading)
    (declaration : FnDecl) :
    (declaration.analyze env).Vaguer keep ((declaration.reread reading).analyze env') := by
  refine ⟨?_, ?_, ?_⟩
  · rw [FnDecl.analyze_scopes, FnDecl.analyze_scopes]
    exact h.scopes.add ⟨rfl, .function (declaration.knownParameters_looser hreading)
      (hreading.tag declaration.result)⟩
  · rw [FnDecl.analyze, FnDecl.analyze, FnDecl.ascriptions_reread]
    refine ((hreading.findings declaration.result).append
      (hreading.flatMap declaration.ascriptions)).append ?_
    rw [declareName_findings h.scopes]
    exact .refl _
  · rw [FnDecl.analyze, FnDecl.analyze]
    simp only [declareName_statements]
    exact .nil

mutual

/-- A run that knows less has a vaguer analysis of an item. -/
theorem Item.analyze_vaguer {reading : Ascription → Ascription} (hreading : Lenient keep reading) :
    ∀ (item : Item) {env env' : Env}, env.Vaguer keep env' →
      Flagged keep env.limit env'.limit false false →
      (item.analyze env).Vaguer keep ((item.reread reading).analyze env')
  | .var declaration, _, _, h, hflag => by
    rw [Item.reread, Item.analyze, Item.analyze]
    exact declaration.analyze_vaguer h hflag hreading
  | .fn declaration, _, _, h, _ => by
    rw [Item.reread, Item.analyze, Item.analyze]
    exact declaration.analyze_vaguer h hreading
  | .block items span, env, env', h, hflag => by
    have hinner := analyzeItems_vaguer hreading items
      (show Env.Vaguer keep { env with scopes := env.scopes.enter }
        { env' with scopes := env'.scopes.enter } from ⟨h.limit, h.scopes.enter⟩) hflag
    refine ⟨?_, ?_, ?_⟩
    · rw [Item.analyze_scopes, Item.reread, Item.analyze_scopes]
      exact h.scopes
    · rw [Item.reread, Item.analyze, Item.analyze]
      exact hinner.findings
    · rw [Item.reread, Item.analyze, Item.analyze]
      exact hinner.statements
  | .expr e, _, _, h, hflag => by
    have hinner := e.resolve_vaguer h 0 .none hflag
    rw [Item.reread, Item.analyze, Item.analyze]
    exact ⟨h.scopes, hinner.findings, .cons ⟨rfl, hinner.tag⟩ .nil⟩

/-- A run that knows less has a vaguer analysis of items. -/
theorem analyzeItems_vaguer {reading : Ascription → Ascription}
    (hreading : Lenient keep reading) :
    ∀ (items : List Item) {env env' : Env}, env.Vaguer keep env' →
      Flagged keep env.limit env'.limit false false →
      (analyzeItems env items).Vaguer keep (analyzeItems env' (rereadItems reading items))
  | [], _, _, h, _ => by
    rw [rereadItems, analyzeItems, analyzeItems]
    exact ⟨h.scopes, .nil _, .nil⟩
  | item :: rest, env, env', h, hflag => by
    have hfirst := Item.analyze_vaguer hreading item h hflag
    have hothers := analyzeItems_vaguer hreading rest
      (show Env.Vaguer keep { env with scopes := (item.analyze env).scopes }
        { env' with scopes := ((item.reread reading).analyze env').scopes } from
        ⟨h.limit, hfirst.scopes⟩) hflag
    rw [rereadItems, analyzeItems, analyzeItems]
    exact ⟨hothers.scopes, hfirst.findings.append hothers.findings,
      List.rel_append hfirst.statements hothers.statements⟩

end

end TagLang
