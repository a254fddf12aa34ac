import TagLang.Proofs.Labels

/-!
# The two shapes of a report

A check reads a source and then analyses its program, and both stages write into one log.
A report tells which stage it comes from.

* `Report.Unread` is the shape of a report on a source that could not be read: no
  statements, and only what the stages before the analysis report.
* `Report.Analyzed` is the shape of a report on a program: one statement for each
  expression statement, in the order of the source, and the findings of the analysis.

That the statements come one after the other follows from the outline of the program, by
induction over its blocks: `expressionsOfItems_ordered`.  `check_report_shape` is the
result.
-/

namespace TagLang

/-! ## Expression statements -/

mutual

/-- The expression statements of an item, at any depth of blocks and in source order. -/
def Item.expressions : Item → List Expr
  | .var _ => []
  | .fn _ => []
  | .block items _ => expressionsOfItems items
  | .expr e => [e]

/-- The expression statements of several items. -/
def expressionsOfItems : List Item → List Expr
  | [] => []
  | item :: rest => item.expressions ++ expressionsOfItems rest

end

/-- The expression statements of a program. -/
def Program.expressions (program : Program) : List Expr :=
  expressionsOfItems program.items

mutual

/-- The analysis of an item records each of its expression statements. -/
theorem Item.statements_analyze (env : Env) :
    ∀ item : Item, (item.analyze env).statements.map (·.span) = item.expressions.map Expr.span
  | .var declaration => by
    rw [Item.analyze, Item.expressions]
    show (declareName _ _ _).statements.map _ = _
    rw [declareName_statements]
    rfl
  | .fn declaration => by
    rw [Item.analyze, Item.expressions]
    show (declareName _ _ _).statements.map _ = _
    rw [declareName_statements]
    rfl
  | .block items span => by
    rw [Item.analyze, Item.expressions]
    exact statements_analyzeItems { env with scopes := env.scopes.enter } items
  | .expr e => by
    rw [Item.analyze, Item.expressions]
    rfl

theorem statements_analyzeItems (env : Env) :
    ∀ items : List Item,
      (analyzeItems env items).statements.map (·.span) = (expressionsOfItems items).map Expr.span
  | [] => by
    rw [analyzeItems, expressionsOfItems]
    rfl
  | item :: rest => by
    rw [analyzeItems, expressionsOfItems]
    dsimp only
    rw [List.map_append, List.map_append, Item.statements_analyze env item,
      statements_analyzeItems { env with scopes := (item.analyze env).scopes } rest]

end

/-! ## Their order -/

/-- Expressions that come one after the other, each with some text. -/
structure InOrder (es : List Expr) : Prop where
  pairwise : es.Pairwise fun first second => first.span.Before second.span
  nonempty : ∀ e ∈ es, e.span.start < e.span.stop

theorem Outline.Among.row {ts : List Located} {outline : Outline} (h : outline.Among ts) :
    Row ts outline.parts := by
  refine ⟨fun part hpart node hnode => ?_, h.root.ordered⟩
  exact h node (mem_nodes.2 (.inr (mem_nodesOfEach.2 ⟨part, hpart, hnode⟩)))

mutual

/-- The expression statements of an item come one after the other, inside the item. -/
theorem Item.expressions_ordered {ts : List Located} :
    ∀ item : Item, item.outline.Among ts →
      InOrder item.expressions ∧ ∀ e ∈ item.expressions, e.span.Within item.outline.span
  | .var _, _ => by
    rw [Item.expressions]
    exact ⟨⟨.nil, List.forall_mem_nil _⟩, List.forall_mem_nil _⟩
  | .fn _, _ => by
    rw [Item.expressions]
    exact ⟨⟨.nil, List.forall_mem_nil _⟩, List.forall_mem_nil _⟩
  | .block items span, h => by
    rw [Item.outline] at h ⊢
    rw [Item.expressions]
    obtain ⟨hordered, hinside⟩ := expressionsOfItems_ordered items h.row
    refine ⟨hordered, fun e he => ?_⟩
    obtain ⟨outline, houtline, hwithin⟩ := hinside e he
    have hpart := h.root.within outline houtline
    exact ⟨Nat.le_trans hpart.1 hwithin.1, Nat.le_trans hwithin.2 hpart.2⟩
  | .expr e, h => by
    rw [Item.outline] at h ⊢
    rw [Item.expressions]
    have hnonempty := h.root.nonempty
    rw [e.span_outline] at hnonempty ⊢
    exact ⟨⟨List.pairwise_singleton _ _, List.forall_mem_singleton.2 hnonempty⟩,
      List.forall_mem_singleton.2 ⟨Nat.le_refl _, Nat.le_refl _⟩⟩

/-- The expression statements of items that come one after the other do so too. -/
theorem expressionsOfItems_ordered {ts : List Located} :
    ∀ items : List Item, Row ts (outlinesOfItems items) →
      InOrder (expressionsOfItems items) ∧
        ∀ e ∈ expressionsOfItems items, ∃ outline ∈ outlinesOfItems items,
          e.span.Within outline.span
  | [], _ => by
    rw [expressionsOfItems]
    exact ⟨⟨.nil, List.forall_mem_nil _⟩, List.forall_mem_nil _⟩
  | item :: rest, h => by
    rw [outlinesOfItems] at h ⊢
    rw [expressionsOfItems]
    obtain ⟨hbefore, hpairwise⟩ := List.pairwise_cons.1 h.ordered
    obtain ⟨hitem, hinItem⟩ := item.expressions_ordered (h.among _ List.mem_cons_self)
    obtain ⟨hrest, hinRest⟩ := expressionsOfItems_ordered rest
      ⟨fun outline ho => h.among outline (List.mem_cons_of_mem _ ho), hpairwise⟩
    refine ⟨⟨List.pairwise_append.2 ⟨hitem.pairwise, hrest.pairwise, ?_⟩, ?_⟩, ?_⟩
    · intro first hfirst second hsecond
      obtain ⟨outline, houtline, hwithin⟩ := hinRest second hsecond
      have hstop := (hinItem first hfirst).2
      have hstart : item.outline.span.stop ≤ outline.span.start := hbefore outline houtline
      have hsecond := hwithin.1
      show first.span.stop ≤ second.span.start
      omega
    · exact List.forall_mem_append.2 ⟨hitem.nonempty, hrest.nonempty⟩
    · intro e he
      rcases List.mem_append.1 he with he | he
      · exact ⟨item.outline, List.mem_cons_self, hinItem e he⟩
      · obtain ⟨outline, houtline, hwithin⟩ := hinRest e he
        exact ⟨outline, List.mem_cons_of_mem _ houtline, hwithin⟩

end

/-- The expression statements of a program that is read from tokens are in order. -/
theorem Program.expressions_ordered {length : Nat} {ts : List Located} {program : Program}
    (h : Program.ofTokens length ts = .ok program) (hts : Ordered ts) :
    InOrder program.expressions :=
  (expressionsOfItems_ordered program.items (Program.row_outlines h hts)).1

/-! ## Shapes -/

/-- The report on a source that could not be read.  Stray text comes first.  After it comes
the place where the tokens are nested too deep, or at most one syntax error. -/
structure Report.Unread (limit : Nat) (source : String) (report : Report) : Prop where
  statements : report.statements = []
  nonempty : report.log.diagnostics ≠ []
  split : ∃ first last, report.log.diagnostics = first ++ last ∧
    (∀ diagnostic ∈ first, diagnostic.code = .unrecognizedCharacter) ∧
    ((∃ span, Nesting.exceeding? limit (tokens source) = some span ∧
        last = [(Finding.tooDeep limit span).diagnostic]) ∨
      last.length ≤ 1 ∧ ∀ diagnostic ∈ last, diagnostic.code = .syntaxError)

/-- The report on a program that was read.  It has a statement for each expression
statement of the program, one after the other in the source, and its diagnostics are the
findings of the analysis. -/
structure Report.Analyzed (limit : Nat) (source : String) (program : Program)
    (report : Report) : Prop where
  read : (Log.empty.parse limit source).1 = some program
  codes : ∀ diagnostic ∈ report.log.diagnostics,
    diagnostic.code ≠ .unrecognizedCharacter ∧ diagnostic.code ≠ .syntaxError
  statements : report.statements.map (·.span) = program.expressions.map Expr.span
  pairwise : report.statements.Pairwise fun first second => first.span.Before second.span
  nonempty : ∀ statement ∈ report.statements, statement.span.start < statement.span.stop
  findings : report.log.diagnostics =
    (program.analyze ⟨.empty, limit⟩).findings.map Finding.diagnostic

theorem Finding.code_ne_syntaxError (finding : Finding) :
    finding.diagnostic.code ≠ .syntaxError := by
  cases finding <;> simp [Finding.diagnostic, Finding.code]

/-- The statements of a program that was read from a source are in its order. -/
theorem Program.statements_ordered {length : Nat} {ts : List Located} {program : Program}
    (h : Program.ofTokens length ts = .ok program) (hts : Ordered ts) (env : Env) :
    ((program.analyze env).statements.Pairwise fun first second =>
        first.span.Before second.span) ∧
      ∀ statement ∈ (program.analyze env).statements,
        statement.span.start < statement.span.stop := by
  have hspans : (program.analyze env).statements.map (·.span) = program.expressions.map Expr.span :=
    statements_analyzeItems env program.items
  have hordered := Program.expressions_ordered h hts
  constructor
  · have hpairwise := List.pairwise_map.2 hordered.pairwise
    rw [← hspans] at hpairwise
    exact List.pairwise_map.1 hpairwise
  · intro statement hmem
    have hspan : statement.span ∈ program.expressions.map Expr.span := by
      rw [← hspans]
      exact List.mem_map_of_mem hmem
    obtain ⟨e, he, heq⟩ := List.mem_map.1 hspan
    rw [← heq]
    exact hordered.nonempty e he

variable {limit : Nat} {source : String}

/-- Some stage before the analysis reports an error. -/
def Refused (limit : Nat) (source : String) : Prop :=
  strays source ≠ [] ∨ (∃ span, Nesting.exceeding? limit (tokens source) = some span) ∨
    ∃ error, Program.ofTokens source.utf8ByteSize (tokens source) = .error error

theorem code_of_mem_strayDiagnostics (source : String) :
    ∀ diagnostic ∈ strayDiagnostics source, diagnostic.code = .unrecognizedCharacter := by
  intro diagnostic hmem
  obtain ⟨stray, -, rfl⟩ := List.mem_map.1 hmem
  rfl

/-- A refused source is reported by the stages before the analysis. -/
theorem Refused.unread (h : Refused limit source) : (check limit source).Unread limit source := by
  have hstrays := code_of_mem_strayDiagnostics source
  cases hdeep : Nesting.exceeding? limit (tokens source) with
  | some span =>
    rw [check_of_exceeding hdeep]
    exact ⟨rfl, by simp, _, _, rfl, hstrays, .inl ⟨span, hdeep, rfl⟩⟩
  | none =>
    cases hread : Program.ofTokens source.utf8ByteSize (tokens source) with
    | error error =>
      rw [check_of_error hdeep hread]
      refine ⟨rfl, by simp, _, _, rfl, hstrays, .inr ⟨Nat.le_refl _, ?_⟩⟩
      exact List.forall_mem_singleton.2 rfl
    | ok program =>
      have hne : strays source ≠ [] := by
        rcases h with h | ⟨span, h⟩ | ⟨error, h⟩
        · exact h
        · rw [hdeep] at h
          contradiction
        · rw [hread] at h
          contradiction
      rw [check_of_strays hdeep hread hne]
      refine ⟨rfl, ?_, _, [], (List.append_nil _).symm, hstrays, .inr ⟨Nat.zero_le _, ?_⟩⟩
      · simpa [strayDiagnostics] using hne
      · exact List.forall_mem_nil _

/-- A source that is not refused is analysed. -/
theorem analyzed_of_not_refused (h : ¬Refused limit source) :
    ∃ program, (check limit source).Analyzed limit source program := by
  rw [Refused, not_or, not_or] at h
  obtain ⟨hrefused, hdeep, herror⟩ := h
  have hstrays : strays source = [] := Decidable.of_not_not hrefused
  have hnone : Nesting.exceeding? limit (tokens source) = none :=
    Option.eq_none_iff_forall_ne_some.2 fun span hspan => hdeep ⟨span, hspan⟩
  cases hread : Program.ofTokens source.utf8ByteSize (tokens source) with
  | error error => exact absurd ⟨error, hread⟩ herror
  | ok program =>
    obtain ⟨hpairwise, hnonempty⟩ :=
      Program.statements_ordered hread (ordered_tokens source) ⟨.empty, limit⟩
    rw [check_of_program hnone hread hstrays]
    refine ⟨program, ?_, ?_, ?_, hpairwise, hnonempty, rfl⟩
    · exact Log.parse_eq_some_iff.2 ⟨hnone, hread, hstrays, rfl⟩
    · intro diagnostic hmem
      obtain ⟨finding, -, rfl⟩ := List.mem_map.1 hmem
      exact ⟨finding.code_ne_unrecognized, finding.code_ne_syntaxError⟩
    · exact statements_analyzeItems ⟨.empty, limit⟩ program.items

/-- A report has only one of the two shapes.  An analysed report has nothing that could
come first or last in the other shape. -/
theorem Report.Unread.not_analyzed {report : Report} {program : Program}
    (h : report.Unread limit source) : ¬report.Analyzed limit source program := by
  intro hanalyzed
  obtain ⟨hdeep, -, -, -⟩ := Log.parse_eq_some_iff.1 hanalyzed.read
  obtain ⟨first, last, hsplit, hfirst, hlast⟩ := h.split
  have hcodes := hanalyzed.codes
  rw [hsplit] at hcodes
  obtain ⟨hnotFirst, hnotLast⟩ := List.forall_mem_append.1 hcodes
  have hfirstNil : first = [] :=
    List.eq_nil_iff_forall_not_mem.2 fun d hd => (hnotFirst d hd).1 (hfirst d hd)
  have hlastNil : last = [] := by
    rcases hlast with ⟨span, hexceeding, -⟩ | ⟨-, hlast⟩
    · rw [hdeep] at hexceeding
      contradiction
    · exact List.eq_nil_iff_forall_not_mem.2 fun d hd => (hnotLast d hd).2 (hlast d hd)
  apply h.nonempty
  rw [hsplit, hfirstNil, hlastNil]
  rfl

/-- A report has one of two shapes.  It is `Unread` exactly when a stage before the analysis
reports an error: there is stray text, or the tokens are nested too deep, or they are not a
program.  Otherwise it is `Analyzed`. -/
theorem check_report_shape (limit : Nat) (source : String) :
    let report := check limit source
    let unread := report.Unread limit source
    let analyzed := ∃ program, report.Analyzed limit source program
    (unread ∨ analyzed) ∧ ¬(unread ∧ analyzed) ∧
    (unread ↔ strays source ≠ [] ∨
      (∃ span, Nesting.exceeding? limit (tokens source) = some span) ∨
      ∃ error, Program.ofTokens source.utf8ByteSize (tokens source) = .error error) := by
  intro report unread analyzed
  have hnot : ¬(unread ∧ analyzed) := fun ⟨hunread, _, hanalyzed⟩ =>
    hunread.not_analyzed hanalyzed
  by_cases hrefused : Refused limit source
  · have hunread : unread := hrefused.unread
    exact ⟨.inl hunread, hnot, fun _ => hrefused, fun _ => hunread⟩
  · have hanalyzed : analyzed := analyzed_of_not_refused hrefused
    exact ⟨.inr hanalyzed, hnot, fun hunread => absurd ⟨hunread, hanalyzed⟩ hnot,
      fun h => absurd h hrefused⟩

end TagLang
