import TagLang.Proofs.Relocation
import TagLang.Proofs.Reports

/-!
# Relocation of reports

Analysing a relocated program gives the relocated findings, so a source whose tokens are
relocated has the relocated report.

* `Report.mapSpans` puts everything in a report at another place.
* `Relocation.finding`, `Relocation.scopes` and the other definitions move what holds spans.
* `Relocation.plan_expr` says what a relocated node does.  `Relocation.resolve_expr` goes through
  an expression with it, and `Relocation.analyze_item` through an item.
* `Relocation.check_located` puts the stages of a check together.
-/

namespace TagLang

/-! ## Places in a report -/

/-- The label at another place. -/
def Label.mapSpan (f : Span → Span) (label : Label) : Label :=
  { label with span := f label.span }

/-- The diagnostic with its labels at other places. -/
def Diagnostic.mapSpans (f : Span → Span) (diagnostic : Diagnostic) : Diagnostic :=
  { diagnostic with
    primary := diagnostic.primary.mapSpan f
    secondary := diagnostic.secondary.map (·.mapSpan f) }

/-- The statement at another place. -/
def Statement.mapSpan (f : Span → Span) (statement : Statement) : Statement :=
  { statement with span := f statement.span }

/-- The report on a source in which everything is at another place. -/
def Report.mapSpans (f : Span → Span) (report : Report) : Report :=
  ⟨⟨report.log.diagnostics.map (·.mapSpans f)⟩, report.statements.map (·.mapSpan f)⟩

theorem Diagnostic.mapSpans_congr {f g : Span → Span} {diagnostic : Diagnostic}
    (h : ∀ label ∈ diagnostic.labels, f label.span = g label.span) :
    diagnostic.mapSpans f = diagnostic.mapSpans g := by
  have hlabel : ∀ label ∈ diagnostic.labels, label.mapSpan f = label.mapSpan g := by
    intro label hmem
    rw [Label.mapSpan, Label.mapSpan, h label hmem]
  unfold Diagnostic.mapSpans
  rw [hlabel _ List.mem_cons_self,
    List.map_congr_left fun label hmem => hlabel label (List.mem_cons_of_mem _ hmem)]

namespace Relocation

variable (r : Relocation)

/-! ## Scopes and findings -/

def declaration (declaration : Declaration) : Declaration :=
  ⟨r.name declaration.name, declaration.symbol⟩

def scope (scope : Scope) : Scope :=
  scope.map r.declaration

def scopes (scopes : Scopes) : Scopes :=
  ⟨r.scope scopes.current, scopes.outer.map r.scope⟩

def env (env : Env) : Env :=
  { env with scopes := r.scopes env.scopes }

def finding : Finding → Finding
  | .undeclared name => .undeclared (r.name name)
  | .duplicate name previous => .duplicate (r.name name) (r.span previous)
  | .notCallable name found => .notCallable (r.name name) found
  | .functionAsValue name => .functionAsValue (r.name name)
  | .arity callee expected found span => .arity callee expected found (r.span span)
  | .argument callee index expected found span =>
    .argument callee index expected found (r.span span)
  | .operand operator expected found operand whole =>
    .operand operator expected found (r.span operand) (r.span whole)
  | .branches consequent alternative consequentSpan alternativeSpan =>
    .branches consequent alternative (r.span consequentSpan) (r.span alternativeSpan)
  | .condition found span => .condition found (r.span span)
  | .tooDeep limit span => .tooDeep limit (r.span span)
  | .initializer name expected found span => .initializer name expected found (r.span span)
  | .unsupportedUnion span => .unsupportedUnion (r.span span)
  | .internal message span => .internal message (some (r.span (span.getD ⟨0, 0⟩)))
  | .shadowed name outer => .shadowed (r.name name) (r.span outer)

def findings (findings : List Finding) : List Finding :=
  findings.map r.finding

theorem findings_append (first second : List Finding) :
    r.findings (first ++ second) = r.findings first ++ r.findings second :=
  List.map_append

theorem find?_scope (scope : Scope) (text : String) :
    (r.scope scope).find? text = (scope.find? text).map r.declaration := by
  unfold Scope.find? Relocation.scope
  rw [List.find?_map]
  rfl

theorem findSome?_scopes (part : List Scope) (text : String) :
    (part.map r.scope).findSome? (·.find? text) =
      (part.findSome? (·.find? text)).map r.declaration := by
  induction part with
  | nil => rfl
  | cons scope part ih =>
    rw [List.map_cons, List.findSome?_cons, List.findSome?_cons, find?_scope, ih]
    cases scope.find? text <;> rfl

/-- What a name stands for does not depend on where it was declared. -/
theorem symbol?_scopes (scopes : Scopes) (text : String) :
    (r.scopes scopes).symbol? text = scopes.symbol? text := by
  have hfind : (r.scopes scopes).find? text = (scopes.find? text).map r.declaration :=
    r.findSome?_scopes (scopes.current :: scopes.outer) text
  unfold Scopes.symbol?
  rw [hfind, Option.map_map]
  rfl

theorem shadowed?_scopes (scopes : Scopes) (text : String) :
    (r.scopes scopes).shadowed? text = (scopes.shadowed? text).map r.span := by
  unfold Scopes.shadowed?
  rw [show (r.scopes scopes).outer = scopes.outer.map r.scope from rfl, findSome?_scopes,
    Option.map_map, Option.map_map]
  rfl

/-! ## Resolution -/

def verdict (verdict : Verdict) : Verdict :=
  { verdict with findings := r.findings verdict.findings }

def outcome (outcome : Outcome) : Outcome :=
  { outcome with findings := r.findings outcome.findings }

theorem resolveName_scopes (scopes : Scopes) (n : Name) :
    resolveName (r.scopes scopes) (r.name n) = r.verdict (resolveName scopes n) := by
  unfold resolveName
  rw [symbol?_scopes, show (r.name n).text = n.text from rfl]
  cases scopes.symbol? n.text with
  | none => rfl
  | some symbol => cases symbol <;> rfl

theorem checkCallee_scopes (scopes : Scopes) (callee : Name) (given : Nat) (place : Span) :
    checkCallee (r.scopes scopes) (r.name callee) given (r.span place) =
      r.findings (checkCallee scopes callee given place) := by
  unfold checkCallee
  rw [symbol?_scopes, show (r.name callee).text = callee.text from rfl]
  cases scopes.symbol? callee.text with
  | none => rfl
  | some symbol =>
    cases symbol with
    | value kind => rfl
    | function signature =>
      dsimp only
      split <;> rfl

theorem signatureOf?_scopes (scopes : Scopes) (callee : Name) :
    signatureOf? (r.scopes scopes) (r.name callee) = signatureOf? scopes callee := by
  unfold signatureOf?
  rw [symbol?_scopes]
  rfl

theorem parameterTags_scopes (scopes : Scopes) (callee : Name) :
    parameterTags (r.scopes scopes) (r.name callee) = parameterTags scopes callee := by
  unfold parameterTags
  rw [signatureOf?_scopes]

theorem resultTag_scopes (scopes : Scopes) (callee : Name) :
    resultTag (r.scopes scopes) (r.name callee) = resultTag scopes callee := by
  unfold resultTag
  rw [signatureOf?_scopes]

theorem checkArgument_name (callee : Name) (index : Nat) (expected : Option Tag) (found : Tag)
    (place : Span) :
    checkArgument (r.name callee) index expected found (r.span place) =
      r.findings (checkArgument callee index expected found place) := by
  unfold checkArgument
  cases expected with
  | none => rfl
  | some expected =>
    dsimp only
    split <;> rfl

theorem resolveUnary_span (op : UnaryOp) (found : Tag) (operand whole : Span) :
    resolveUnary op found (r.span operand) (r.span whole) =
      r.verdict (resolveUnary op found operand whole) := by
  unfold resolveUnary
  split
  · rfl
  · split <;> rfl

theorem resolveBinary_span (op : BinaryOp) (left right : Tag) (leftSpan rightSpan whole : Span) :
    resolveBinary op left right (r.span leftSpan) (r.span rightSpan) (r.span whole) =
      r.verdict (resolveBinary op left right leftSpan rightSpan whole) := by
  unfold resolveBinary
  dsimp only
  split
  · rfl
  · split
    · rfl
    · split
      · rfl
      · split <;> rfl

theorem checkCondition_span (found : Tag) (place : Span) :
    checkCondition found (r.span place) = r.findings (checkCondition found place) := by
  unfold checkCondition
  split <;> rfl

theorem resolveBranches_span (expected : Option Tag) (consequent alternative : Tag)
    (consequentSpan alternativeSpan : Span) :
    resolveBranches expected consequent alternative (r.span consequentSpan)
        (r.span alternativeSpan) =
      r.verdict (resolveBranches expected consequent alternative consequentSpan
        alternativeSpan) := by
  unfold resolveBranches
  dsimp only
  split
  · rfl
  · cases consequent.join? alternative with
    | none => rfl
    | some joined =>
      dsimp only
      split
      · rfl
      · split <;> rfl

theorem decided_span (expected : Option Tag) (found consequent alternative : Tag)
    (consequentSpan alternativeSpan : Span) :
    (if decides found then resolveBranches expected consequent alternative
        (r.span consequentSpan) (r.span alternativeSpan)
      else ⟨.undefined, []⟩ : Verdict) =
      r.verdict (if decides found then resolveBranches expected consequent alternative
          consequentSpan alternativeSpan
        else ⟨.undefined, []⟩) := by
  rw [resolveBranches_span]
  split <;> rfl

theorem tooDeep_span (limit : Nat) (exceeded : Bool) (place : Span) :
    tooDeep limit exceeded (r.span place) = r.outcome (tooDeep limit exceeded place) := by
  cases exceeded <;> rfl

theorem conclude_verdict (v : Verdict) :
    .conclude (r.verdict v) = (Plan.conclude v).map r.expr r.findings :=
  rfl

theorem ofArguments_exprs (callee : Name) (result : Tag) (arguments : List Expr) :
    ∀ (index : Nat) (tags : List Tag) (anyUndefined : Bool),
      Plan.ofArguments (r.name callee) result index tags anyUndefined (r.exprs arguments) =
        (Plan.ofArguments callee result index tags anyUndefined arguments).map r.expr
          r.findings := by
  induction arguments with
  | nil =>
    intro index tags anyUndefined
    rw [exprs]
    rfl
  | cons argument rest ih =>
    intro index tags anyUndefined
    rw [exprs]
    simp only [Plan.ofArguments, Plan.map, span_expr, checkArgument_name, ih]

/-- A relocated node has the relocated plan. -/
theorem plan_expr (scopes : Scopes) (expected : Option Tag) (e : Expr) :
    (r.expr e).plan (r.scopes scopes) expected =
      (e.plan scopes expected).map r.expr r.findings := by
  cases e with
  | literal value place =>
    rw [expr]
    rfl
  | var name place => rw [expr, Expr.plan, resolveName_scopes, conclude_verdict, Expr.plan]
  | call callee arguments place =>
    rw [expr, Expr.plan, checkCallee_scopes, resultTag_scopes, parameterTags_scopes,
      ofArguments_exprs, exprs_eq_map, List.length_map, Expr.plan, Plan.map]
  | unary op operand place =>
    rw [expr]
    simp only [Expr.plan, Plan.map, span_expr, resolveUnary_span, conclude_verdict]
  | binary op left right place =>
    rw [expr]
    simp only [Expr.plan, Plan.map, span_expr, resolveBinary_span, conclude_verdict]
  | conditional condition consequent alternative place =>
    rw [expr]
    simp only [Expr.plan, Plan.map, span_expr, checkCondition_span, decided_span,
      conclude_verdict]

/-- A relocated expression has the same tag, and the relocated findings. -/
theorem resolve_expr (env : Env) (e : Expr) :
    ∀ (expected : Option Tag) (depth : Nat) (exceeded : Bool),
      (r.expr e).resolve (r.env env) expected depth exceeded =
        r.outcome (e.resolve env expected depth exceeded) := by
  induction e using Expr.induction_parts with
  | h e ih =>
    intro expected depth exceeded
    rcases Nat.lt_or_ge depth env.limit with hdepth | hdeep
    · have hdepth' : depth < (r.env env).limit := hdepth
      rw [Expr.resolve_of_lt hdepth, Expr.resolve_of_lt hdepth',
        show (r.env env).scopes = r.scopes env.scopes from rfl, plan_expr]
      exact (e.plan_through _ _).run_map r.expr id r.findings_append
        (fun part hpart expected => ih part hpart expected (depth + 1)) exceeded
    · have hdeep' : (r.env env).limit ≤ depth := hdeep
      rw [Expr.resolve_of_limit_le hdeep, Expr.resolve_of_limit_le hdeep', span_expr]
      exact r.tooDeep_span env.limit exceeded e.span

/-! ## Analysis -/

def analysis (analysis : Analysis) : Analysis :=
  ⟨r.scopes analysis.scopes, r.findings analysis.findings,
    analysis.statements.map (·.mapSpan r.span)⟩

theorem resolve_ascription (ascription : Ascription) :
    (r.ascription ascription).resolve = r.verdict ascription.resolve := by
  unfold Ascription.resolve
  rw [show (r.ascription ascription).tag? = ascription.tag? from rfl]
  cases ascription.tag? <;> rfl

theorem declareName_scopes (scopes : Scopes) (n : Name) (symbol : Symbol) :
    declareName (r.scopes scopes) (r.name n) symbol =
      r.analysis (declareName scopes n symbol) := by
  unfold declareName Scopes.declare
  rw [show (r.scopes scopes).current = r.scope scopes.current from rfl,
    show (r.name n).text = n.text from rfl, find?_scope, shadowed?_scopes]
  cases scopes.current.find? n.text with
  | some declaration => rfl
  | none =>
    have hcurrent : r.scope scopes.current ++ [⟨r.name n, symbol⟩] =
        r.scope (scopes.current ++ [⟨n, symbol⟩]) := by
      simp [Relocation.scope, Relocation.declaration]
    simp only [Option.map_none]
    rw [hcurrent]
    cases scopes.shadowed? n.text <;> rfl

theorem checkInitializer_varDecl (env : Env) (declaration : VarDecl) (declared : Tag) :
    (r.varDecl declaration).checkInitializer (r.env env) declared =
      r.findings (declaration.checkInitializer env declared) := by
  unfold VarDecl.checkInitializer
  rw [show (r.varDecl declaration).initializer = declaration.initializer.map r.expr from rfl]
  cases declaration.initializer with
  | none => rfl
  | some e =>
    simp only [Option.map_some, resolve_expr, span_expr, findings_append, outcome]
    split <;> rfl

theorem analyze_varDecl (env : Env) (declaration : VarDecl) :
    (r.varDecl declaration).analyze (r.env env) = r.analysis (declaration.analyze env) := by
  unfold VarDecl.analyze
  rw [show (r.varDecl declaration).ascription = r.ascription declaration.ascription from rfl,
    show (r.varDecl declaration).name = r.name declaration.name from rfl,
    show (r.env env).scopes = r.scopes env.scopes from rfl, resolve_ascription]
  simp [declareName_scopes, checkInitializer_varDecl, analysis, verdict, findings_append]

theorem ascriptions_fnDecl (declaration : FnDecl) :
    (r.fnDecl declaration).ascriptions = declaration.ascriptions.map r.ascription := by
  unfold FnDecl.ascriptions
  rw [show (r.fnDecl declaration).parameters = declaration.parameters.map r.parameter from rfl,
    List.filterMap_map, List.map_filterMap]
  rfl

theorem knownParameters_fnDecl (declaration : FnDecl) :
    (r.fnDecl declaration).knownParameters = declaration.knownParameters := by
  have hall : (r.fnDecl declaration).parameters.all (·.ascription.isSome) =
      declaration.parameters.all (·.ascription.isSome) := by
    simp [fnDecl, parameter, List.all_map, Function.comp_def]
  unfold FnDecl.knownParameters
  rw [hall, ascriptions_fnDecl]
  simp [fnDecl, resolve_ascription, verdict, Function.comp_def]

theorem analyze_fnDecl (env : Env) (declaration : FnDecl) :
    (r.fnDecl declaration).analyze (r.env env) = r.analysis (declaration.analyze env) := by
  have hfindings : (declaration.ascriptions.map r.ascription).flatMap (·.resolve.findings) =
      r.findings (declaration.ascriptions.flatMap (·.resolve.findings)) := by
    simp [findings, resolve_ascription, verdict, List.flatMap_map, List.map_flatMap]
  unfold FnDecl.analyze
  rw [show (r.fnDecl declaration).result = r.ascription declaration.result from rfl,
    show (r.fnDecl declaration).name = r.name declaration.name from rfl,
    show (r.env env).scopes = r.scopes env.scopes from rfl, resolve_ascription,
    knownParameters_fnDecl, ascriptions_fnDecl, hfindings]
  simp [declareName_scopes, analysis, verdict, findings_append]

theorem exit_scopes (scopes : Scopes) : (r.scopes scopes).exit = r.scopes scopes.exit := by
  obtain ⟨current, outer⟩ := scopes
  cases outer <;> rfl

mutual

/-- A relocated item declares the same, relocated, and has the relocated findings. -/
theorem analyze_item (env : Env) :
    ∀ item : Item, (r.item item).analyze (r.env env) = r.analysis (item.analyze env)
  | .var declaration => by
    rw [item, Item.analyze, Item.analyze, analyze_varDecl]
  | .fn declaration => by
    rw [item, Item.analyze, Item.analyze, analyze_fnDecl]
  | .block block place => by
    have hinner : analyzeItems ⟨(r.scopes env.scopes).enter, (r.env env).limit⟩
        (r.items block) = _ :=
      analyzeItems_items { env with scopes := env.scopes.enter } block
    rw [item, Item.analyze, Item.analyze, show (r.env env).scopes = r.scopes env.scopes from rfl]
    simp only [hinner, analysis, exit_scopes]
  | .expr e => by
    rw [item, Item.analyze, Item.analyze, resolve_expr, span_expr]
    rfl

/-- The same for items one after the other. -/
theorem analyzeItems_items (env : Env) :
    ∀ items : List Item, analyzeItems (r.env env) (r.items items) =
      r.analysis (analyzeItems env items)
  | [] => by
    rw [items, analyzeItems, analyzeItems]
    rfl
  | first :: rest => by
    have hrest : analyzeItems ⟨r.scopes (first.analyze env).scopes, (r.env env).limit⟩
        (r.items rest) = _ :=
      analyzeItems_items { env with scopes := (first.analyze env).scopes } rest
    rw [items, analyzeItems, analyzeItems, analyze_item env first]
    simp only [analysis, hrest, findings_append, List.map_append]

end

/-! ## Reports -/

theorem diagnostic_finding (finding : Finding) :
    (r.finding finding).diagnostic = finding.diagnostic.mapSpans r.span := by
  cases finding <;> rfl

variable {r} {source source' : String} {f : Span → Span}

/-- The error at the end of one source is at the end of the other. -/
theorem syntaxError_eq {error : SyntaxError}
    (h : Program.ofTokens source.utf8ByteSize (tokens source) = .error error)
    (hspan : ∀ span : Span, span.start < span.stop → f span = r.span span)
    (hend : f (.point source.utf8ByteSize) = .point source'.utf8ByteSize) :
    r.syntaxError source'.utf8ByteSize error = { error with span := f error.span } := by
  unfold syntaxError
  rcases Program.span_of_error h with ⟨t, ht, hfound, hplace⟩ | ⟨hfound, hplace⟩
  · rw [hfound, hplace, hspan t.span (inText_of_mem_tokens ht).2]
  · rw [hfound, hplace, hend]

/-- The findings on a program are not at the end of the source. -/
theorem map_diagnostic_findings {program : Program}
    (h : Program.ofTokens source.utf8ByteSize (tokens source) = .ok program) (limit : Nat)
    (hspan : ∀ span : Span, span.start < span.stop → f span = r.span span) :
    (r.findings (program.analyze ⟨.empty, limit⟩).findings).map Finding.diagnostic =
      ((program.analyze ⟨.empty, limit⟩).findings.map Finding.diagnostic).map (·.mapSpans f) := by
  rw [findings, List.map_map, List.map_map]
  refine List.map_congr_left fun finding hfinding => ?_
  show (r.finding finding).diagnostic = finding.diagnostic.mapSpans f
  rw [diagnostic_finding]
  refine Diagnostic.mapSpans_congr fun label hlabel => ?_
  rcases (anchored_of_program h limit finding hfinding label hlabel).2 with hlt | ⟨hcode, -⟩
  · exact (hspan label.span hlt).symm
  · exact absurd hcode finding.code_ne_syntaxError

/-- A source whose tokens are relocated has the relocated report. -/
theorem check_located (limit : Nat) (hstrays : strays source = []) (hstrays' : strays source' = [])
    (htokens : tokens source' = (tokens source).map r.located)
    (hspan : ∀ span : Span, span.start < span.stop → f span = r.span span)
    (hend : f (.point source.utf8ByteSize) = .point source'.utf8ByteSize) :
    check limit source' = (check limit source).mapSpans f := by
  have hexceeding := r.exceeding?_located limit (tokens source)
  have hprogram := r.ofTokens_located source.utf8ByteSize source'.utf8ByteSize (tokens source)
  rw [← htokens] at hexceeding hprogram
  cases hdeep : Nesting.exceeding? limit (tokens source) with
  | some span =>
    rw [hdeep] at hexceeding
    obtain ⟨t, ht, rfl⟩ := Nesting.mem_of_exceeding? hdeep
    rw [check_of_exceeding hdeep, check_of_exceeding hexceeding, strayDiagnostics,
      strayDiagnostics, hstrays, hstrays', ← hspan t.span (inText_of_mem_tokens ht).2]
    rfl
  | none =>
    rw [hdeep] at hexceeding
    cases hread : Program.ofTokens source.utf8ByteSize (tokens source) with
    | error error =>
      rw [hread] at hprogram
      dsimp only at hprogram
      rw [syntaxError_eq hread hspan hend] at hprogram
      rw [check_of_error hdeep hread, check_of_error hexceeding hprogram, strayDiagnostics,
        strayDiagnostics, hstrays, hstrays']
      rfl
    | ok program =>
      rw [hread] at hprogram
      have hanalyze : analyzeItems ⟨.empty, limit⟩ (r.items program.items) =
          r.analysis (program.analyze ⟨.empty, limit⟩) :=
        r.analyzeItems_items ⟨.empty, limit⟩ program.items
      have hstatements : ∀ statement ∈ (program.analyze ⟨.empty, limit⟩).statements,
          statement.mapSpan r.span = statement.mapSpan f := by
        intro statement hmem
        have hlt := (Program.statements_ordered hread (ordered_tokens source) _).2 statement hmem
        rw [Statement.mapSpan, Statement.mapSpan, hspan statement.span hlt]
      rw [check_of_program hdeep hread hstrays, check_of_program hexceeding hprogram hstrays',
        Report.mapSpans, ← map_diagnostic_findings hread limit hspan,
        ← List.map_congr_left hstatements]
      dsimp only [Program.analyze] at hanalyze ⊢
      rw [hanalyze]
      rfl

end Relocation

end TagLang
