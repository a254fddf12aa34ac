import TagLang.Proofs.Absorption
import TagLang.Proofs.Nesting
import TagLang.Proofs.Stages

/-!
# Higher limits

The limit of the nesting is used twice: the tokens of a source are counted before they
are read, and the nodes of an expression while it is resolved.  This module compares
checks of one source under two limits.

* `Nesting.exceeding?_mono`: tokens that are not nested too deep under the lower limit
  are not under the higher one.
* `Expr.resolve_exceeded`: the limit is exceeded exactly by the expressions that are too
  high, and `Expr.reportsLimit` says that this is reported.  `Expr.resolve_limit` says
  that neither the limit nor the depth matters to the others.
* `Item.analyze_higher` and `analyzeItems_higher` say the same of items: without a report on
  the limit, a higher limit changes nothing.
* `check_limit_monotone` is the result for sources.  That a report on the limit does not
  lead to others is the law of `Proofs.Absorption`.
-/

namespace TagLang

/-! ## Tokens -/

theorem Nesting.exceeding?_mono {low high : Nat} (h : low ≤ high) {tokens : List Located}
    (hnone : exceeding? low tokens = none) : exceeding? high tokens = none := by
  rw [exceeding?_eq_none_iff] at hnone ⊢
  exact fun p hp => Nat.le_trans (hnone p hp) h

/-! ## Expressions -/

/-- The flag after some parts is the flag before them, or one of them is too high. -/
theorem exceeded_or {limit height height' : Nat} (flag : Bool) :
    ((flag || decide (limit < height)) || decide (limit < height')) =
      (flag || decide (limit < max height height')) := by
  have hmax : limit < height ∨ limit < height' ↔ limit < max height height' := by omega
  rw [Bool.or_assoc, ← Bool.decide_or, decide_eq_decide.2 hmax]

/-- The flag after a plan, if it is right after each part. -/
theorem Plan.Through.exceeded {plan : Plan} {parts : List Expr} (h : plan.Through parts)
    {env : Env} {depth : Nat} (hdepth : depth ≤ env.limit)
    (hparts : ∀ part ∈ parts, ∀ expected flag, (part.resolve env expected depth flag).exceeded =
      (flag || decide (env.limit < depth + part.height))) (flag : Bool) :
    (plan.run (env.resolver depth) flag).exceeded =
      (flag || decide (env.limit < depth + Expr.heights parts)) := by
  induction h generalizing flag with
  | done => rw [Expr.heights, decide_eq_false (by omega), Bool.or_false, Plan.run]
  | report _ ih => exact ih hparts flag
  | @part e expected next rest _ ih =>
    obtain ⟨hfirst, hrest⟩ := List.forall_mem_cons.1 hparts
    have hmax : max (depth + e.height) (depth + Expr.heights rest) =
        depth + Expr.heights (e :: rest) := by
      rw [Expr.heights]
      omega
    rw [Plan.run]
    dsimp only
    rw [ih _ hrest, Env.resolver, hfirst, exceeded_or, hmax]

/-- The limit is exceeded exactly when it was before or the expression is too high. -/
theorem Expr.resolve_exceeded (env : Env) (e : Expr) :
    ∀ (expected : Option Tag) (depth : Nat) (flag : Bool),
      (e.resolve env expected depth flag).exceeded =
        (flag || decide (env.limit < depth + e.height)) := by
  induction e using Expr.induction_parts with
  | h e ih =>
    intro expected depth flag
    have hheight := e.height_eq
    rcases Nat.lt_or_ge depth env.limit with hdepth | hdeep
    · rw [Expr.resolve_of_lt hdepth, (e.plan_through _ _).exceeded hdepth
        fun part hpart expected => ih part hpart expected (depth + 1)]
      congr 3
      omega
    · rw [Expr.resolve_of_limit_le hdeep, decide_eq_true (by omega), Bool.or_true]
      rfl

/-- Something among the findings says that the limit is exceeded. -/
def ReportsLimit (findings : List Finding) : Prop :=
  ∃ finding ∈ findings, finding.code = .nestingTooDeep

theorem ReportsLimit.append_left {findings : List Finding} (h : ReportsLimit findings)
    (more : List Finding) : ReportsLimit (findings ++ more) := by
  obtain ⟨finding, hmem, hcode⟩ := h
  exact ⟨finding, List.mem_append_left more hmem, hcode⟩

theorem ReportsLimit.append_right {findings : List Finding} (h : ReportsLimit findings)
    (before : List Finding) : ReportsLimit (before ++ findings) := by
  obtain ⟨finding, hmem, hcode⟩ := h
  exact ⟨finding, List.mem_append_right before hmem, hcode⟩

/-- A plan that ends with the flag has reported the limit, if its parts report it. -/
theorem Plan.Through.reportsLimit {plan : Plan} {parts : List Expr} (h : plan.Through parts)
    {resolve : Resolver}
    (hparts : ∀ part ∈ parts, ∀ expected, (resolve part expected false).exceeded = true →
      ReportsLimit (resolve part expected false).findings)
    (hexceeded : (plan.run resolve false).exceeded = true) :
    ReportsLimit (plan.run resolve false).findings := by
  induction h with
  | done => contradiction
  | report _ ih => exact (ih hparts hexceeded).append_right _
  | @part e expected next rest _ ih =>
    obtain ⟨hfirst, hrest⟩ := List.forall_mem_cons.1 hparts
    rw [Plan.run] at hexceeded ⊢
    dsimp only at hexceeded ⊢
    cases hpart : (resolve e expected false).exceeded with
    | true => exact (hfirst expected hpart).append_left _
    | false =>
      rw [hpart] at hexceeded
      exact (ih _ hrest hexceeded).append_right _

/-- The first node that exceeds the limit is reported. -/
theorem Expr.reportsLimit (env : Env) (e : Expr) :
    ∀ (expected : Option Tag) (depth : Nat),
      (e.resolve env expected depth false).exceeded = true →
      ReportsLimit (e.resolve env expected depth false).findings := by
  induction e using Expr.induction_parts with
  | h e ih =>
    intro expected depth hexceeded
    rcases Nat.lt_or_ge depth env.limit with hdepth | hdeep
    · rw [Expr.resolve_of_lt hdepth] at hexceeded ⊢
      exact (e.plan_through _ _).reportsLimit
        (fun part hpart expected => ih part hpart expected (depth + 1)) hexceeded
    · rw [Expr.resolve_of_limit_le hdeep]
      exact ⟨.tooDeep env.limit e.span, List.mem_singleton_self _, rfl⟩

/-- Neither the limit nor the depth matters to an expression that is not too high. -/
theorem Expr.resolve_limit (scopes : Scopes) {low high : Nat} (e : Expr) :
    ∀ (expected : Option Tag) (depth depth' : Nat) (flag : Bool),
      depth + e.height ≤ low → depth' + e.height ≤ high →
      e.resolve ⟨scopes, low⟩ expected depth flag =
        e.resolve ⟨scopes, high⟩ expected depth' flag := by
  induction e using Expr.induction_parts with
  | h e ih =>
    intro expected depth depth' flag hlow hhigh
    have hheight := e.height_eq
    have hdepth : depth < (Env.mk scopes low).limit := by
      dsimp only
      omega
    have hdepth' : depth' < (Env.mk scopes high).limit := by
      dsimp only
      omega
    rw [Expr.resolve_of_lt hdepth, Expr.resolve_of_lt hdepth']
    apply (e.plan_through scopes expected).run_congr
    intro part hpart expected flag
    have hpartHeight := Expr.height_lt_of_mem_parts hpart
    exact ih part hpart expected (depth + 1) (depth' + 1) flag (by omega) (by omega)

/-- A tree that is resolved without a report on the limit has the same outcome under a
higher one. -/
theorem Expr.resolve_higher {scopes : Scopes} {low high : Nat} (h : low ≤ high) {e : Expr}
    {expected : Option Tag}
    (hsilent : ¬ReportsLimit (e.resolve ⟨scopes, low⟩ expected 0 false).findings) :
    e.resolve ⟨scopes, high⟩ expected 0 false = e.resolve ⟨scopes, low⟩ expected 0 false := by
  have hexceeded : ¬(e.resolve ⟨scopes, low⟩ expected 0 false).exceeded = true :=
    fun hexceeded => hsilent (e.reportsLimit ⟨scopes, low⟩ expected 0 hexceeded)
  rw [Expr.resolve_exceeded, Bool.false_or, decide_eq_true_iff] at hexceeded
  have hheight : 0 + e.height ≤ low := Nat.le_of_not_lt hexceeded
  exact (e.resolve_limit scopes expected 0 0 false hheight (by omega)).symm

/-! ## Items -/

theorem ReportsLimit.not_append {first second : List Finding}
    (h : ¬ReportsLimit (first ++ second)) : ¬ReportsLimit first ∧ ¬ReportsLimit second :=
  ⟨fun hfirst => h (hfirst.append_left second), fun hsecond => h (hsecond.append_right first)⟩

theorem VarDecl.checkInitializer_higher {scopes : Scopes} {low high : Nat} (h : low ≤ high)
    {declaration : VarDecl} {declared : Tag}
    (hsilent : ¬ReportsLimit (declaration.checkInitializer ⟨scopes, low⟩ declared)) :
    declaration.checkInitializer ⟨scopes, high⟩ declared =
      declaration.checkInitializer ⟨scopes, low⟩ declared := by
  unfold VarDecl.checkInitializer at hsilent ⊢
  cases hinitializer : declaration.initializer with
  | none => rfl
  | some e =>
    rw [hinitializer] at hsilent
    dsimp only
    rw [Expr.resolve_higher h (ReportsLimit.not_append hsilent).1]

mutual

/-- An item that is analysed without a report on the limit has the same analysis under a
higher one. -/
theorem Item.analyze_higher {low high : Nat} (h : low ≤ high) :
    ∀ (item : Item) (scopes : Scopes),
      ¬ReportsLimit (item.analyze ⟨scopes, low⟩).findings →
      item.analyze ⟨scopes, high⟩ = item.analyze ⟨scopes, low⟩
  | .var declaration, scopes, hsilent => by
    rw [Item.analyze, VarDecl.analyze] at hsilent
    have hinitializer := (ReportsLimit.not_append (ReportsLimit.not_append hsilent).1).2
    rw [Item.analyze, Item.analyze, VarDecl.analyze, VarDecl.analyze]
    dsimp only
    rw [VarDecl.checkInitializer_higher h hinitializer]
  | .fn declaration, scopes, hsilent => by
    rw [Item.analyze, Item.analyze]
    rfl
  | .block items span, scopes, hsilent => by
    rw [Item.analyze] at hsilent
    rw [Item.analyze, Item.analyze]
    dsimp only
    rw [analyzeItems_higher h items scopes.enter hsilent]
  | .expr e, scopes, hsilent => by
    rw [Item.analyze] at hsilent
    rw [Item.analyze, Item.analyze, Expr.resolve_higher h hsilent]

/-- The same for items one after the other. -/
theorem analyzeItems_higher {low high : Nat} (h : low ≤ high) :
    ∀ (items : List Item) (scopes : Scopes),
      ¬ReportsLimit (analyzeItems ⟨scopes, low⟩ items).findings →
      analyzeItems ⟨scopes, high⟩ items = analyzeItems ⟨scopes, low⟩ items
  | [], scopes, hsilent => by
    rw [analyzeItems, analyzeItems]
  | item :: rest, scopes, hsilent => by
    rw [analyzeItems] at hsilent
    have hparts := ReportsLimit.not_append hsilent
    rw [analyzeItems, analyzeItems, Item.analyze_higher h item scopes hparts.1]
    dsimp only
    rw [analyzeItems_higher h rest _ hparts.2]

end

mutual

/-- To read every ascription as it stands changes nothing. -/
theorem Item.reread_id : ∀ item : Item, item.reread id = item
  | .var declaration => rfl
  | .fn declaration => by
    have hparameter : Parameter.reread id = id := by
      funext parameter
      simp [Parameter.reread]
    simp [Item.reread, FnDecl.reread, hparameter]
  | .block items span => by rw [Item.reread, rereadItems_id items]
  | .expr e => rfl

theorem rereadItems_id : ∀ items : List Item, rereadItems id items = items
  | [] => rfl
  | item :: rest => by rw [rereadItems, item.reread_id, rereadItems_id rest]

end

/-! ## Sources -/

/-- Everything but the reports on the limit. -/
def Finding.besidesLimit (finding : Finding) : Bool :=
  finding.code ≠ .nestingTooDeep

/-- The analysis under a lower limit is vaguer. -/
theorem Program.analyze_vaguer {low high : Nat} (h : low ≤ high) (program : Program)
    (scopes : Scopes) :
    (program.analyze ⟨scopes, low⟩).Vaguer Finding.besidesLimit
      (program.analyze ⟨scopes, high⟩) := by
  have hid : Lenient Finding.besidesLimit id :=
    ⟨fun ascription => .refl _, fun ascription => .refl _⟩
  have hvaguer := analyzeItems_vaguer hid program.items
    (⟨h, .refl scopes⟩ : Env.Vaguer _ ⟨scopes, low⟩ ⟨scopes, high⟩) (.inl fun _ _ => rfl)
  rwa [rereadItems_id] at hvaguer

/-- The diagnostics of a report but those on the limit. -/
def Report.besidesLimit (report : Report) : List Diagnostic :=
  report.log.diagnostics.filter fun diagnostic => diagnostic.code ≠ .nestingTooDeep

theorem filter_map_diagnostic (findings : List Finding) :
    (findings.map Finding.diagnostic).filter
        (fun diagnostic => diagnostic.code ≠ .nestingTooDeep) =
      (findings.filter Finding.besidesLimit).map Finding.diagnostic := by
  rw [List.filter_map]
  rfl

theorem filter_strayDiagnostics (source : String) :
    (strayDiagnostics source).filter (fun diagnostic => diagnostic.code ≠ .nestingTooDeep) =
      strayDiagnostics source := by
  rw [List.filter_eq_self]
  intro diagnostic hmem
  obtain ⟨stray, -, rfl⟩ := List.mem_map.1 hmem
  rfl

/-- A higher limit tells more.  What a check reports under the lower limit, besides the
limit itself, it reports under the higher one too, in the same order.  If both checks
reach the analysis, they record the same expression statements, and the tags under the
lower limit are the same or `undefined`.  If the lower limit is not reported at all, the
reports are equal. -/
theorem check_limit_monotone (source : String) {low high : Nat} (h : low ≤ high) :
    (check low source).besidesLimit.Sublist (check high source).besidesLimit ∧
    ((Log.empty.parse low source).1.isSome = true →
      (Log.empty.parse high source).1.isSome = true →
      List.Forall₂ (fun statement statement' =>
          statement.span = statement'.span ∧
            (statement.tag = statement'.tag ∨ statement.tag = .undefined))
        (check low source).statements (check high source).statements) ∧
    ((∀ diagnostic ∈ (check low source).log.diagnostics, diagnostic.code ≠ .nestingTooDeep) →
      check low source = check high source) := by
  cases hdeep : Nesting.exceeding? low (tokens source) with
  | some span =>
    have hfew := check_of_exceeding hdeep
    refine ⟨?_, ?_, ?_⟩
    · have hstrays : (check low source).besidesLimit = strayDiagnostics source := by
        rw [hfew, Report.besidesLimit, List.filter_append, filter_strayDiagnostics]
        exact List.append_nil _
      have hmany := ((strays_prefix_check high source).sublist).filter
        fun diagnostic => diagnostic.code ≠ .nestingTooDeep
      rw [filter_strayDiagnostics] at hmany
      rw [hstrays]
      exact hmany
    · intro hsome _
      obtain ⟨program, hprogram⟩ := Option.isSome_iff_exists.1 hsome
      have hnone := (Log.parse_eq_some_iff.1 hprogram).1
      rw [hdeep] at hnone
      contradiction
    · intro hsilent
      rw [hfew] at hsilent
      exact absurd rfl (hsilent (Finding.tooDeep low span).diagnostic (by simp))
  | none =>
    have hdeep' := Nesting.exceeding?_mono h hdeep
    cases hread : Program.ofTokens source.utf8ByteSize (tokens source) with
    | error error =>
      rw [check_of_error hdeep hread, check_of_error hdeep' hread]
      exact ⟨List.Sublist.refl _, fun _ _ => .nil, fun _ => rfl⟩
    | ok program =>
      by_cases hstrays : strays source = []
      · have hvaguer := program.analyze_vaguer h .empty
        rw [check_of_program hdeep hread hstrays, check_of_program hdeep' hread hstrays]
        refine ⟨?_, fun _ _ => ?_, fun hsilent => ?_⟩
        · rw [Report.besidesLimit, Report.besidesLimit, filter_map_diagnostic,
            filter_map_diagnostic]
          exact hvaguer.findings.map Finding.diagnostic
        · exact hvaguer.statements.imp fun _ _ hstatement =>
            ⟨hstatement.span, hstatement.tag⟩
        · have hnot : ¬ReportsLimit (program.analyze ⟨.empty, low⟩).findings := by
            rintro ⟨finding, hmem, hcode⟩
            exact hsilent finding.diagnostic (List.mem_map_of_mem hmem) hcode
          have hequal : program.analyze ⟨.empty, high⟩ = program.analyze ⟨.empty, low⟩ :=
            analyzeItems_higher h program.items .empty hnot
          rw [hequal]
      · rw [check_of_strays hdeep hread hstrays, check_of_strays hdeep' hread hstrays]
        exact ⟨List.Sublist.refl _, fun _ _ => .nil, fun _ => rfl⟩

/-- Under the limit `1` the operand of a sign is not visited, under `2` everything is. -/
theorem check_limit_monotone_sign :
    (1 ≤ 2 ∧ (Log.empty.parse 1 "-1;").1.isSome = true ∧
      (Log.empty.parse 2 "-1;").1.isSome = true ∧
      ∀ diagnostic ∈ (check 2 "-1;").log.diagnostics, diagnostic.code ≠ .nestingTooDeep) ∧
    (check 1 "-1;").besidesLimit.Sublist (check 2 "-1;").besidesLimit ∧
    List.Forall₂ (fun statement statement' =>
        statement.span = statement'.span ∧
          (statement.tag = statement'.tag ∨ statement.tag = .undefined))
      (check 1 "-1;").statements (check 2 "-1;").statements ∧
    (check 1 "-1;").statements ≠ (check 2 "-1;").statements ∧
    check 2 "-1;" = check 3 "-1;" := by
  have hlow : (Log.empty.parse 1 "-1;").1.isSome = true := by decide +kernel
  have hhigh : (Log.empty.parse 2 "-1;").1.isSome = true := by decide +kernel
  have hsilent : ∀ diagnostic ∈ (check 2 "-1;").log.diagnostics,
      diagnostic.code ≠ .nestingTooDeep := by decide +kernel
  obtain ⟨hsublist, hstatements, -⟩ := check_limit_monotone "-1;" (show 1 ≤ 2 by decide)
  obtain ⟨-, -, hequal⟩ := check_limit_monotone "-1;" (show 2 ≤ 3 by decide)
  exact ⟨⟨by decide, hlow, hhigh, hsilent⟩, hsublist, hstatements hlow hhigh,
    by decide +kernel, hequal hsilent⟩

end TagLang
