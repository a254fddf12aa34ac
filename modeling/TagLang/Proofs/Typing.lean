import TagLang.Proofs.Plans

/-!
# Typing of expressions

A declarative typing judgment, and its agreement with resolution.

`HasTag visible expected e tag` says that `e` has `tag` where `visible` tells what
names stand for and `expected` is what the surroundings want.  It knows nothing of
findings, of the tag `undefined`, or of depths.

* `HasTag.resolve_eq`: a typed expression that is not too high resolves to its tag,
  without a finding.
* `Expr.resolve_sound`: an expression without errors is typed and not too high.
  Here the table matters.  A name with the tag `undefined` is silent, so the table
  must not hold one.
-/

namespace TagLang

/-! ## The judgment -/

/-- What the parameters of a function want, one entry for each of them. -/
def Parameters.wanted : Parameters → List (Option Tag)
  | counted count => List.replicate count none
  | tagged tags => tags.map some

/-- Some operand tag of the rule fits. -/
def Rule.Takes (rule : Rule) (tag : Tag) : Prop :=
  ∃ accepted ∈ rule.accepted, accepted.accepts tag = true

/-- One operand tag of the rule fits both. -/
def Rule.TakesBoth (rule : Rule) (left right : Tag) : Prop :=
  ∃ accepted ∈ rule.accepted, accepted.accepts left = true ∧ accepted.accepts right = true

mutual

/-- The typing rules of expressions. -/
inductive HasTag (visible : String → Option Symbol) : Option Tag → Expr → Tag → Prop where
  | int {expected digits span} :
      HasTag visible expected (.literal (.int digits) span) .int
  | str {expected value span} :
      HasTag visible expected (.literal (.str value) span) .str
  | bool {expected value span} :
      HasTag visible expected (.literal (.bool value) span) .bool
  | var {expected name kind} :
      visible name.text = some (.value kind) →
      HasTag visible expected (.var name span) kind
  | call {expected callee arguments span parameters result} :
      visible callee.text = some (.function ⟨parameters, result⟩) →
      ArgumentsFit visible parameters.wanted arguments →
      HasTag visible expected (.call callee arguments span) result
  | unary {expected op operand span tag} :
      HasTag visible none operand tag →
      op.rule.Takes tag →
      HasTag visible expected (.unary op operand span) op.rule.result
  | binary {expected op left right span leftTag rightTag} :
      HasTag visible none left leftTag →
      HasTag visible none right rightTag →
      op.rule.Takes leftTag → op.rule.Takes rightTag →
      (op.rule.sameOperands = true → op.rule.TakesBoth leftTag rightTag) →
      HasTag visible expected (.binary op left right span) op.rule.result
  | conditional {expected condition consequent alternative span} {tag first second joined : Tag} :
      HasTag visible (some .bool) condition tag →
      Tag.bool.accepts tag = true →
      HasTag visible expected consequent first →
      HasTag visible expected alternative second →
      first.join? second = some joined →
      (joined = first ∨ joined = second ∨
        ∃ context, expected = some context ∧ context.covers joined = true) →
      HasTag visible expected (.conditional condition consequent alternative span) joined

/-- As many arguments as parameters, each typed under the tag of its parameter and
compatible with it, or under no expectation where that tag is not known. -/
inductive ArgumentsFit (visible : String → Option Symbol) :
    List (Option Tag) → List Expr → Prop where
  | nil : ArgumentsFit visible [] []
  | known {parameter tag parameters argument arguments} :
      HasTag visible (some parameter) argument tag →
      parameter.accepts tag = true →
      ArgumentsFit visible parameters arguments →
      ArgumentsFit visible (some parameter :: parameters) (argument :: arguments)
  | unknown {tag parameters argument arguments} :
      HasTag visible none argument tag →
      ArgumentsFit visible parameters arguments →
      ArgumentsFit visible (none :: parameters) (argument :: arguments)

end

/-! ## Tags that are defined -/

/-- Using the symbol does not give `undefined`. -/
def Symbol.Defined : Symbol → Prop
  | value kind => kind ≠ .undefined
  | function signature => signature.result ≠ .undefined

/-- No visible name gives `undefined`. -/
def AllDefined (visible : String → Option Symbol) : Prop :=
  ∀ text symbol, visible text = some symbol → symbol.Defined

theorem Tag.join?_ne_undefined {a b joined : Tag} (ha : a ≠ .undefined) (hb : b ≠ .undefined)
    (h : a.join? b = some joined) : joined ≠ .undefined := by
  rintro rfl
  revert ha hb h
  cases a <;> cases b <;> decide

theorem UnaryOp.result_ne_undefined (op : UnaryOp) : op.rule.result ≠ .undefined := by
  cases op <;> decide

theorem BinaryOp.result_ne_undefined (op : BinaryOp) : op.rule.result ≠ .undefined := by
  cases op <;> decide

/-- A typed expression has a defined tag. -/
theorem HasTag.ne_undefined {visible : String → Option Symbol} (hdefined : AllDefined visible) :
    ∀ {e : Expr} {expected : Option Tag} {tag : Tag},
      HasTag visible expected e tag → tag ≠ .undefined
  | _, _, _, .int => by decide
  | _, _, _, .str => by decide
  | _, _, _, .bool => by decide
  | _, _, _, .var hname => hdefined _ _ hname
  | _, _, _, .call hcallee _ => hdefined _ _ hcallee
  | _, _, _, .unary _ _ => UnaryOp.result_ne_undefined _
  | _, _, _, .binary _ _ _ _ _ => BinaryOp.result_ne_undefined _
  | _, _, _, .conditional _ _ hfirst hsecond hjoin _ =>
    Tag.join?_ne_undefined (hfirst.ne_undefined hdefined) (hsecond.ne_undefined hdefined) hjoin

/-! ## Findings without errors -/

/-- None of the findings is an error. -/
def NoError (findings : List Finding) : Prop :=
  ∀ finding ∈ findings, finding.code.severity = .warning

@[simp]
theorem noError_nil : NoError [] := by
  simp [NoError]

@[simp]
theorem noError_append (first second : List Finding) :
    NoError (first ++ second) ↔ NoError first ∧ NoError second := by
  simp [NoError, or_imp, forall_and]

theorem noError_singleton (finding : Finding) :
    NoError [finding] ↔ finding.code.severity = .warning := by
  simp [NoError]

/-! ## Single nodes

For each kind of node: what makes it silent, and its tag then. -/

theorem Rule.accepts_iff (rule : Rule) (tag : Tag) :
    rule.accepts tag = true ↔ rule.Takes tag := by
  simp [Rule.accepts, Rule.Takes]

theorem Rule.common?_isNone_iff (rule : Rule) (left right : Tag) :
    (rule.common? left right).isNone = false ↔ rule.TakesBoth left right := by
  rw [← Bool.not_eq_true, Option.isNone_iff_eq_none, Rule.common?, List.find?_eq_none]
  simp [Rule.TakesBoth]

section Nodes

variable {place whole consequentSpan alternativeSpan : Span}

theorem resolveUnary_eq {op : UnaryOp} {found : Tag} (hfound : found ≠ .undefined)
    (htakes : op.rule.Takes found) :
    resolveUnary op found place whole = ⟨op.rule.result, []⟩ := by
  rw [resolveUnary, if_neg hfound, if_pos ((op.rule.accepts_iff found).2 htakes)]

theorem resolveUnary_silent {op : UnaryOp} {found : Tag} (hfound : found ≠ .undefined)
    (h : NoError (resolveUnary op found place whole).findings) : op.rule.Takes found := by
  rw [resolveUnary, if_neg hfound] at h
  split at h
  · rename_i haccepts
    exact (op.rule.accepts_iff found).1 haccepts
  · simp [noError_singleton, Finding.code, Code.severity] at h

theorem resolveBinary_eq {op : BinaryOp} {left right : Tag} (hleft : left ≠ .undefined)
    (hright : right ≠ .undefined) (htakesLeft : op.rule.Takes left)
    (htakesRight : op.rule.Takes right)
    (hboth : op.rule.sameOperands = true → op.rule.TakesBoth left right)
    {leftSpan rightSpan : Span} :
    resolveBinary op left right leftSpan rightSpan whole = ⟨op.rule.result, []⟩ := by
  have hsame : (op.rule.sameOperands && (op.rule.common? left right).isNone) = false := by
    cases hrule : op.rule.sameOperands with
    | false => rfl
    | true => exact (op.rule.common?_isNone_iff left right).2 (hboth hrule)
  simp [resolveBinary, hleft, hright, (op.rule.accepts_iff left).2 htakesLeft,
    (op.rule.accepts_iff right).2 htakesRight, hsame]

theorem resolveBinary_silent {op : BinaryOp} {left right : Tag} (hleft : left ≠ .undefined)
    (hright : right ≠ .undefined) {leftSpan rightSpan : Span}
    (h : NoError (resolveBinary op left right leftSpan rightSpan whole).findings) :
    op.rule.Takes left ∧ op.rule.Takes right ∧
      (op.rule.sameOperands = true → op.rule.TakesBoth left right) := by
  rw [resolveBinary, if_neg (by simp [hleft, hright])] at h
  cases hacceptsLeft : op.rule.accepts left with
  | false => simp [hacceptsLeft, noError_singleton, Finding.code, Code.severity] at h
  | true =>
    cases hacceptsRight : op.rule.accepts right with
    | false =>
      simp [hacceptsLeft, hacceptsRight, noError_singleton, Finding.code, Code.severity] at h
    | true =>
      refine ⟨(op.rule.accepts_iff left).1 hacceptsLeft,
        (op.rule.accepts_iff right).1 hacceptsRight, fun hsame => ?_⟩
      cases hcommon : (op.rule.common? left right).isNone with
      | false => exact (op.rule.common?_isNone_iff left right).1 hcommon
      | true =>
        simp [hacceptsLeft, hacceptsRight, hsame, hcommon, noError_singleton, Finding.code,
          Code.severity] at h

theorem resolveBranches_eq {expected : Option Tag} {first second joined : Tag}
    (hfirst : first ≠ .undefined) (hsecond : second ≠ .undefined)
    (hjoin : first.join? second = some joined)
    (hcovered : joined = first ∨ joined = second ∨
      ∃ context, expected = some context ∧ context.covers joined = true) :
    resolveBranches expected first second consequentSpan alternativeSpan = ⟨joined, []⟩ := by
  rw [resolveBranches, if_neg (by simp [hfirst, hsecond]), hjoin]
  by_cases hbranch : joined = first ∨ joined = second
  · simp [hbranch]
  · have hcontext : expected.any (·.covers joined) = true := by
      rcases hcovered with h | h | ⟨context, rfl, hcovers⟩
      · exact absurd (Or.inl h) hbranch
      · exact absurd (Or.inr h) hbranch
      · simpa using hcovers
    simp [hbranch, hcontext]

theorem resolveBranches_silent {expected : Option Tag} {first second : Tag}
    (hfirst : first ≠ .undefined) (hsecond : second ≠ .undefined)
    (h : NoError (resolveBranches expected first second consequentSpan alternativeSpan).findings) :
    ∃ joined, first.join? second = some joined ∧
      (joined = first ∨ joined = second ∨
        ∃ context, expected = some context ∧ context.covers joined = true) := by
  rw [resolveBranches, if_neg (by simp [hfirst, hsecond])] at h
  cases hjoin : first.join? second with
  | none => simp [hjoin, noError_singleton, Finding.code, Code.severity] at h
  | some joined =>
    refine ⟨joined, rfl, ?_⟩
    by_cases hbranch : joined = first ∨ joined = second
    · exact hbranch.imp_right Or.inl
    · cases expected with
      | none => simp [hjoin, hbranch, noError_singleton, Finding.code, Code.severity] at h
      | some context =>
        refine Or.inr (Or.inr ⟨context, rfl, ?_⟩)
        cases hcovers : context.covers joined with
        | false =>
          simp [hjoin, hbranch, hcovers, noError_singleton, Finding.code, Code.severity] at h
        | true => rfl

theorem checkCondition_silent {found : Tag} (h : NoError (checkCondition found place)) :
    Tag.bool.accepts found = true := by
  rw [checkCondition] at h
  split at h
  · assumption
  · simp [noError_singleton, Finding.code, Code.severity] at h

theorem checkArgument_silent {callee : Name} {index : Nat} {expected found : Tag}
    (hfound : found ≠ .undefined)
    (h : NoError (checkArgument callee index (some expected) found place)) :
    expected.accepts found = true := by
  simp only [checkArgument, hfound, false_or] at h
  split at h
  · assumption
  · simp [noError_singleton, Finding.code, Code.severity] at h

end Nodes

/-! ## Parameters and the tags known of them -/

/-- The first `count` of the tags that are known, with `none` after the last. -/
def padded (tags : List Tag) : Nat → List (Option Tag)
  | 0 => []
  | count + 1 => tags.head? :: padded tags.tail count

theorem padded_nil (count : Nat) : padded [] count = List.replicate count none := by
  induction count with
  | zero => rfl
  | succ count ih => rw [padded, List.replicate_succ, List.tail_nil, ih, List.head?_nil]

theorem padded_length (tags : List Tag) : padded tags tags.length = tags.map some := by
  induction tags with
  | nil => rfl
  | cons tag tags ih => rw [List.length_cons, padded, List.tail_cons, ih, List.map_cons,
      List.head?_cons]

theorem Parameters.wanted_eq_padded (parameters : Parameters) :
    parameters.wanted = padded (parameters.tags?.getD []) parameters.count := by
  cases parameters with
  | counted count => exact (padded_nil count).symm
  | tagged tags => exact (padded_length tags).symm

theorem ArgumentsFit.length_eq {visible : String → Option Symbol} :
    ∀ {parameters : List (Option Tag)} {arguments : List Expr},
      ArgumentsFit visible parameters arguments → arguments.length = parameters.length
  | _, _, .nil => rfl
  | _, _, .known _ _ hrest => congrArg (· + 1) hrest.length_eq
  | _, _, .unknown _ hrest => congrArg (· + 1) hrest.length_eq

theorem Parameters.length_wanted (parameters : Parameters) :
    parameters.wanted.length = parameters.count := by
  cases parameters <;> simp [wanted, count]

/-! ## Typed expressions resolve without findings -/

mutual

/-- A typed expression that is not too high resolves to its tag, silently.  The
induction is on the derivation; every part is one level deeper and one lower. -/
theorem HasTag.resolve_eq {env : Env} (hdefined : AllDefined env.scopes.symbol?) :
    ∀ {e : Expr} {expected : Option Tag} {tag : Tag},
      HasTag env.scopes.symbol? expected e tag → ∀ (depth : Nat) (exceeded : Bool),
      depth + e.height ≤ env.limit →
      e.resolve env expected depth exceeded = ⟨tag, exceeded, []⟩
  | _, _, _, .int, depth, exceeded, hheight => by
    simp only [Expr.height] at hheight
    rw [Expr.resolve, if_neg (by omega)]
    rfl
  | _, _, _, .str, depth, exceeded, hheight => by
    simp only [Expr.height] at hheight
    rw [Expr.resolve, if_neg (by omega)]
    rfl
  | _, _, _, .bool, depth, exceeded, hheight => by
    simp only [Expr.height] at hheight
    rw [Expr.resolve, if_neg (by omega)]
    rfl
  | _, _, _, .var hname, depth, exceeded, hheight => by
    simp only [Expr.height] at hheight
    rw [Expr.resolve, if_neg (by omega)]
    simp [resolveName, hname]
  | _, _, _, @HasTag.call _ _ _ arguments _ parameters _ hcallee hfit, depth, exceeded,
      hheight => by
    simp only [Expr.height] at hheight
    have hcount : arguments.length = parameters.count :=
      hfit.length_eq.trans parameters.length_wanted
    have hwanted : parameters.wanted =
        padded (parameters.tags?.getD []) arguments.length := by
      rw [hcount]
      exact parameters.wanted_eq_padded
    have hinner := fun callee => hfit.resolve_eq hdefined callee 0 _ hwanted (depth + 1)
      exceeded (by omega)
    rw [Expr.resolve, if_neg (by omega)]
    simp [parameterTags, resultTag, signatureOf?, checkCallee, hcallee, Symbol.signature?,
      hinner, hcount]
  | _, _, _, .unary hoperand htakes, depth, exceeded, hheight => by
    simp only [Expr.height] at hheight
    have hinner := hoperand.resolve_eq hdefined (depth + 1) exceeded (by omega)
    rw [Expr.resolve, if_neg (by omega)]
    simp [hinner, resolveUnary_eq (hoperand.ne_undefined hdefined) htakes]
  | _, _, _, .binary hleft hright htakesLeft htakesRight hboth, depth, exceeded, hheight => by
    simp only [Expr.height] at hheight
    have hfirst := hleft.resolve_eq hdefined (depth + 1) exceeded (by omega)
    have hsecond := hright.resolve_eq hdefined (depth + 1) exceeded (by omega)
    rw [Expr.resolve, if_neg (by omega)]
    simp [hfirst, hsecond, resolveBinary_eq (hleft.ne_undefined hdefined)
      (hright.ne_undefined hdefined) htakesLeft htakesRight hboth]
  | _, _, _, .conditional hcondition hbool hconsequent halternative hjoin hcovered, depth,
      exceeded, hheight => by
    simp only [Expr.height] at hheight
    have hdecision := hcondition.resolve_eq hdefined (depth + 1) exceeded (by omega)
    have hfirst := hconsequent.resolve_eq hdefined (depth + 1) exceeded (by omega)
    have hsecond := halternative.resolve_eq hdefined (depth + 1) exceeded (by omega)
    rw [Expr.resolve, if_neg (by omega)]
    simp [hdecision, hfirst, hsecond, checkCondition, decides, hbool,
      hcondition.ne_undefined hdefined, resolveBranches_eq
        (hconsequent.ne_undefined hdefined) (halternative.ne_undefined hdefined) hjoin hcovered]

/-- Arguments that fit the parameters resolve silently. -/
theorem ArgumentsFit.resolve_eq {env : Env} (hdefined : AllDefined env.scopes.symbol?)
    (callee : Name) :
    ∀ {parameters : List (Option Tag)} {arguments : List Expr} (index : Nat) (tags : List Tag),
      parameters = padded tags arguments.length →
      ArgumentsFit env.scopes.symbol? parameters arguments → ∀ (depth : Nat) (exceeded : Bool),
      depth + Expr.heights arguments ≤ env.limit →
      resolveArguments env callee index tags depth exceeded arguments = ⟨false, exceeded, []⟩
  | _, _, index, tags, _, .nil, depth, exceeded, hheight => by rw [resolveArguments]
  | _, _, index, tags, hpadded, .known hargument haccepts hrest, depth, exceeded, hheight => by
    simp only [Expr.heights] at hheight
    rw [List.length_cons, padded, List.cons.injEq] at hpadded
    have hfirst := hargument.resolve_eq hdefined depth exceeded (by omega)
    have hothers := hrest.resolve_eq hdefined callee (index + 1) tags.tail hpadded.2 depth
      exceeded (by omega)
    rw [resolveArguments]
    simp [← hpadded.1, hfirst, hothers, checkArgument, haccepts,
      hargument.ne_undefined hdefined]
  | _, _, index, tags, hpadded, .unknown hargument hrest, depth, exceeded, hheight => by
    simp only [Expr.heights] at hheight
    rw [List.length_cons, padded, List.cons.injEq] at hpadded
    have hfirst := hargument.resolve_eq hdefined depth exceeded (by omega)
    have hothers := hrest.resolve_eq hdefined callee (index + 1) tags.tail hpadded.2 depth
      exceeded (by omega)
    rw [resolveArguments]
    simp [← hpadded.1, hfirst, hothers, checkArgument, hargument.ne_undefined hdefined]

end

/-! ## Expressions without errors are typed -/

mutual

/-- An expression without errors is typed by its tag, is not too high, and leaves
the flag of the depth limit clear. -/
theorem Expr.resolve_sound (env : Env) (hdefined : AllDefined env.scopes.symbol?) :
    ∀ (e : Expr) (expected : Option Tag) (depth : Nat),
      NoError (e.resolve env expected depth false).findings →
      HasTag env.scopes.symbol? expected e (e.resolve env expected depth false).tag ∧
        (e.resolve env expected depth false).exceeded = false ∧
        depth + e.height ≤ env.limit
  | e, expected, depth, hsilent => by
    have hdepth : ¬env.limit ≤ depth := by
      intro hdeep
      rw [Expr.resolve_of_limit_le hdeep] at hsilent
      simp [tooDeep, noError_singleton, Finding.code, Code.severity] at hsilent
    match e with
    | .literal value span =>
      rw [Expr.resolve, if_neg hdepth]
      refine ⟨?_, rfl, by rw [Expr.height]; omega⟩
      cases value with
      | int digits => exact .int
      | str text => exact .str
      | bool value => exact .bool
    | .var name span =>
      rw [Expr.resolve, if_neg hdepth] at hsilent ⊢
      refine ⟨?_, rfl, by rw [Expr.height]; omega⟩
      simp only [resolveName] at hsilent ⊢
      split at hsilent
      · rename_i kind hname
        exact .var hname
      · simp [noError_singleton, Finding.code, Code.severity] at hsilent
      · simp [noError_singleton, Finding.code, Code.severity] at hsilent
    | .call callee arguments span =>
      rw [Expr.resolve, if_neg hdepth] at hsilent ⊢
      simp only [noError_append] at hsilent ⊢
      obtain ⟨hfit, hdefinedArguments, hexceeded, hheight⟩ :=
        resolveArguments_sound env hdefined callee arguments 0
          (parameterTags env.scopes callee) (depth + 1) (by omega) hsilent.2
      have hcallee := hsilent.1
      rw [checkCallee] at hcallee
      split at hcallee
      · rename_i signature hsymbol
        split at hcallee
        · rename_i hcount
          obtain ⟨parameters, result⟩ := signature
          simp only [parameterTags, signatureOf?, hsymbol, Option.bind_some,
            Symbol.signature?] at hfit
          rw [hcount, ← Parameters.wanted_eq_padded] at hfit
          refine ⟨?_, hexceeded, by rw [Expr.height]; omega⟩
          rw [hdefinedArguments]
          simp only [resultTag, signatureOf?, hsymbol]
          exact .call hsymbol hfit
        · simp [noError_singleton, Finding.code, Code.severity] at hcallee
      · simp [noError_singleton, Finding.code, Code.severity] at hcallee
      · simp [noError_singleton, Finding.code, Code.severity] at hcallee
    | .unary op operand span =>
      rw [Expr.resolve, if_neg hdepth] at hsilent ⊢
      simp only [noError_append] at hsilent ⊢
      obtain ⟨hoperand, hexceeded, hheight⟩ :=
        Expr.resolve_sound env hdefined operand none (depth + 1) hsilent.1
      have hfound := hoperand.ne_undefined hdefined
      have htakes := resolveUnary_silent hfound hsilent.2
      refine ⟨?_, hexceeded, by rw [Expr.height]; omega⟩
      rw [resolveUnary_eq hfound htakes]
      exact .unary hoperand htakes
    | .binary op left right span =>
      rw [Expr.resolve, if_neg hdepth] at hsilent ⊢
      simp only [noError_append] at hsilent ⊢
      obtain ⟨⟨hsilentLeft, hsilentRight⟩, hsilentNode⟩ := hsilent
      obtain ⟨hleft, hexceededLeft, hheightLeft⟩ :=
        Expr.resolve_sound env hdefined left none (depth + 1) hsilentLeft
      rw [hexceededLeft] at hsilentRight hsilentNode ⊢
      obtain ⟨hright, hexceededRight, hheightRight⟩ :=
        Expr.resolve_sound env hdefined right none (depth + 1) hsilentRight
      have hfoundLeft := hleft.ne_undefined hdefined
      have hfoundRight := hright.ne_undefined hdefined
      obtain ⟨htakesLeft, htakesRight, hboth⟩ :=
        resolveBinary_silent hfoundLeft hfoundRight hsilentNode
      refine ⟨?_, hexceededRight, by rw [Expr.height]; omega⟩
      rw [resolveBinary_eq hfoundLeft hfoundRight htakesLeft htakesRight hboth]
      exact .binary hleft hright htakesLeft htakesRight hboth
    | .conditional condition consequent alternative span =>
      rw [Expr.resolve, if_neg hdepth] at hsilent ⊢
      simp only [noError_append] at hsilent ⊢
      obtain ⟨⟨⟨⟨hsilentCondition, hsilentBool⟩, hsilentFirst⟩, hsilentSecond⟩,
        hsilentNode⟩ := hsilent
      obtain ⟨hcondition, hexceeded, hheight⟩ :=
        Expr.resolve_sound env hdefined condition (some .bool) (depth + 1) hsilentCondition
      rw [hexceeded] at hsilentFirst hsilentSecond hsilentNode ⊢
      obtain ⟨hconsequent, hexceededFirst, hheightFirst⟩ :=
        Expr.resolve_sound env hdefined consequent expected (depth + 1) hsilentFirst
      rw [hexceededFirst] at hsilentSecond hsilentNode ⊢
      obtain ⟨halternative, hexceededSecond, hheightSecond⟩ :=
        Expr.resolve_sound env hdefined alternative expected (depth + 1) hsilentSecond
      have hbool := checkCondition_silent hsilentBool
      have hdecides : decides
          (condition.resolve env (some .bool) (depth + 1) false).tag = true := by
        simp [decides, hbool, hcondition.ne_undefined hdefined]
      have hfoundFirst := hconsequent.ne_undefined hdefined
      have hfoundSecond := halternative.ne_undefined hdefined
      rw [if_pos hdecides] at hsilentNode ⊢
      obtain ⟨joined, hjoin, hcovered⟩ :=
        resolveBranches_silent hfoundFirst hfoundSecond hsilentNode
      refine ⟨?_, hexceededSecond, by rw [Expr.height]; omega⟩
      rw [resolveBranches_eq hfoundFirst hfoundSecond hjoin hcovered]
      exact .conditional hcondition hbool hconsequent halternative hjoin hcovered

/-- Arguments without errors fit the parameters as far as these are known. -/
theorem resolveArguments_sound (env : Env) (hdefined : AllDefined env.scopes.symbol?)
    (callee : Name) :
    ∀ (arguments : List Expr) (index : Nat) (tags : List Tag) (depth : Nat),
      depth ≤ env.limit →
      NoError (resolveArguments env callee index tags depth false arguments).findings →
      ArgumentsFit env.scopes.symbol? (padded tags arguments.length) arguments ∧
        (resolveArguments env callee index tags depth false arguments).anyUndefined = false ∧
        (resolveArguments env callee index tags depth false arguments).exceeded = false ∧
        depth + Expr.heights arguments ≤ env.limit
  | [], index, tags, depth, hdepth, _ => by
    rw [resolveArguments]
    exact ⟨.nil, rfl, rfl, by rw [Expr.heights]; omega⟩
  | argument :: rest, index, tags, depth, hdepth, hsilent => by
    rw [resolveArguments] at hsilent ⊢
    simp only [noError_append] at hsilent ⊢
    obtain ⟨⟨hsilentFirst, hsilentNode⟩, hsilentRest⟩ := hsilent
    obtain ⟨hargument, hexceeded, hheight⟩ :=
      Expr.resolve_sound env hdefined argument tags.head? depth hsilentFirst
    rw [hexceeded] at hsilentRest ⊢
    obtain ⟨hrest, hundefined, hexceededRest, hheightRest⟩ :=
      resolveArguments_sound env hdefined callee rest (index + 1) tags.tail depth hdepth
        hsilentRest
    have hfound := hargument.ne_undefined hdefined
    refine ⟨?_, by simp [hfound, hundefined], hexceededRest, by rw [Expr.heights]; omega⟩
    rw [List.length_cons, padded]
    cases htag : tags.head? with
    | none =>
      rw [htag] at hargument
      exact .unknown hargument hrest
    | some parameter =>
      rw [htag] at hargument hsilentNode hfound
      exact .known hargument (checkArgument_silent hfound hsilentNode) hrest

end

end TagLang
