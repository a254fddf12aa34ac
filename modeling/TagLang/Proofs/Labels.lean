import TagLang.Proofs.Causes
import TagLang.Proofs.Nesting

/-!
# Where diagnostics point

Every label of a diagnostic has a place in the source.  The places come from four stages,
and each has its own reason to be right.

* Stray text is a lexeme: `inText_of_mem_strays`.
* The nesting is exceeded at a token, `Nesting.mem_of_exceeding?`.
* A syntax error is at a token or at the end of the source, `Program.span_of_error`.
* The analysis refers to parts of the program or to earlier declarations in sight, which
  are parts of the program too: `Finding.Caused.standsIn`.

`check_labels_in_text` is the result for sources.
-/

namespace TagLang

/-! ## Places of tokens -/

/-- The nesting is exceeded at a token. -/
theorem Nesting.mem_of_exceeding? {limit : Nat} {ts : List Located} {span : Span}
    (h : exceeding? limit ts = some span) : ∃ t ∈ ts, t.span = span := by
  obtain ⟨before, t, after, rfl, hspan, -, -⟩ := exceeding?_eq_some_iff.1 h
  exact ⟨t, List.mem_append_right before List.mem_cons_self, hspan⟩

theorem Draft.mem_of_readAll {ts : List Located} {error : SyntaxError} :
    ∀ {draft : Draft}, draft.readAll ts = .error error →
      ∃ t ∈ ts, error.found = some t.token ∧ error.span = t.span := by
  induction ts with
  | nil =>
    intro draft h
    contradiction
  | cons t rest ih =>
    intro draft h
    unfold Draft.readAll at h
    split at h
    · obtain ⟨u, hu, hfound⟩ := ih h
      exact ⟨u, List.mem_cons_of_mem t hu, hfound⟩
    · cases h
      exact ⟨t, by simp, rfl, rfl⟩

/-- A syntax error is at the token that was found, or at the end of the source. -/
theorem Program.span_of_error {length : Nat} {ts : List Located} {error : SyntaxError}
    (h : Program.ofTokens length ts = .error error) :
    (∃ t ∈ ts, error.found = some t.token ∧ error.span = t.span) ∨
      error.found = none ∧ error.span = .point length := by
  unfold Program.ofTokens at h
  split at h
  · rename_i hread
    cases h
    exact .inl (Draft.mem_of_readAll hread)
  · split at h
    · contradiction
    · cases h
      exact .inr ⟨rfl, rfl⟩

/-! ## Places of findings -/

theorem Name.standsIn {nodes : List Outline} {name : Name} (h : name.outline ∈ nodes) :
    StandsIn nodes name.span :=
  ⟨name.outline, h, rfl⟩

/-- The labels of a finding stand at parts of the program, provided that the names in sight
do. -/
theorem Finding.Caused.standsIn {env : Env} {nodes : List Outline} {finding : Finding}
    (h : finding.Caused env nodes)
    (hscopes : env.scopes.All fun declaration => declaration.name.outline ∈ nodes) :
    ∀ label ∈ finding.diagnostic.labels, StandsIn nodes label.span := by
  cases h with
  | undeclared hname _ | functionAsValue hname _ | notCallable hname _ =>
    exact List.forall_mem_singleton.2 (Name.standsIn hname)
  | arity _ hspan _ _ | argument _ hspan _ | condition hspan _ | tooDeep hspan
  | initializer _ hspan _ =>
    exact List.forall_mem_singleton.2 hspan
  | operand hplace hwhole _ _ =>
    exact List.forall_mem_cons.2 ⟨hplace, List.forall_mem_singleton.2 hwhole⟩
  | branches hconsequent halternative _ _ =>
    exact List.forall_mem_cons.2 ⟨halternative, List.forall_mem_singleton.2 hconsequent⟩
  | unsupportedUnion hascription _ =>
    exact List.forall_mem_singleton.2 ⟨_, hascription, rfl⟩
  | duplicate hname hprevious =>
    have hmem := hscopes env.scopes.current (by simp) _ (List.mem_of_find?_eq_some hprevious)
    exact List.forall_mem_cons.2
      ⟨Name.standsIn hname, List.forall_mem_singleton.2 (Name.standsIn hmem)⟩
  | shadowed hname houter =>
    have hmem := (hscopes.findSome? (List.subset_cons_self _ _) houter).1
    exact List.forall_mem_cons.2
      ⟨Name.standsIn hname, List.forall_mem_singleton.2 (Name.standsIn hmem)⟩

/-- The labels of the findings on a program stand at its parts. -/
theorem Program.standsIn_of_mem_labels (program : Program) (limit : Nat) :
    ∀ finding ∈ (program.analyze ⟨.empty, limit⟩).findings,
      ∀ label ∈ finding.diagnostic.labels, StandsIn program.nodes label.span := by
  intro finding hfinding
  obtain ⟨visit, hvisit, hcaused⟩ := program.analyze_caused limit finding hfinding
  refine hcaused.standsIn fun scope hscope declaration hmem => ?_
  obtain ⟨origin, horigin, hdeclared⟩ :=
    program.visits_all limit visit hvisit scope hscope declaration hmem
  exact Item.outline_of_declared? (visitItems_subset _ program.items origin horigin) hdeclared

/-! ## Sources -/

/-- The place is in the source, and takes at least one byte there. -/
def Marks (source : String) (span : Span) : Prop :=
  span.InText source ∧ span.start < span.stop

theorem Outline.Placed.marks {source : String} {node : Outline} (h : node.Placed source) :
    Marks source node.span := by
  obtain ⟨t, ht, hstart⟩ := h.starts
  obtain ⟨u, hu, hstop⟩ := h.stops
  have hfirst := (inText_of_mem_tokens ht).1.start
  have hlast := (inText_of_mem_tokens hu).1.stop
  rw [hstart] at hfirst
  rw [hstop] at hlast
  exact ⟨⟨Nat.le_of_lt h.nonempty, h.inside, hfirst, hlast⟩, h.nonempty⟩

/-- The end of a source is a place in it. -/
theorem Span.inText_point (source : String) : (Span.point source.utf8ByteSize).InText source := by
  have hend : (⟨source.utf8ByteSize⟩ : String.Pos.Raw).IsValid source := by
    rw [String.Pos.Raw.isValid_iff_exists_append]
    exact ⟨source, "", by simp, rfl⟩
  exact ⟨Nat.le_refl _, Nat.le_refl _, hend, hend⟩

/-- The labels of a diagnostic are places in the source.  Only the place of a syntax error
may be empty, and then it is the end of the source. -/
def Diagnostic.Anchored (source : String) (diagnostic : Diagnostic) : Prop :=
  ∀ label ∈ diagnostic.labels, label.span.InText source ∧
    (label.span.start < label.span.stop ∨
      diagnostic.code = .syntaxError ∧ label.span = .point source.utf8ByteSize)

theorem Diagnostic.anchored_of_marks {source : String} {diagnostic : Diagnostic}
    (h : ∀ label ∈ diagnostic.labels, Marks source label.span) : diagnostic.Anchored source :=
  fun label hlabel => ⟨(h label hlabel).1, .inl (h label hlabel).2⟩

theorem Stray.anchored {source : String} {stray : Stray} (h : stray ∈ strays source) :
    stray.diagnostic.Anchored source :=
  Diagnostic.anchored_of_marks (List.forall_mem_singleton.2 (inText_of_mem_strays h))

theorem SyntaxError.anchored {source : String} {error : SyntaxError}
    (h : Program.ofTokens source.utf8ByteSize (tokens source) = .error error) :
    error.diagnostic.Anchored source := by
  rcases Program.span_of_error h with ⟨t, ht, -, hspan⟩ | ⟨-, hspan⟩
  · refine Diagnostic.anchored_of_marks (List.forall_mem_singleton.2 ?_)
    show Marks source error.span
    rw [hspan]
    exact inText_of_mem_tokens ht
  · refine List.forall_mem_singleton.2 ⟨?_, .inr ⟨rfl, hspan⟩⟩
    show error.span.InText source
    rw [hspan]
    exact Span.inText_point source

/-- The findings on a program that was read from a source point into the source. -/
theorem anchored_of_program {source : String} {program : Program}
    (h : Program.ofTokens source.utf8ByteSize (tokens source) = .ok program) (limit : Nat) :
    ∀ finding ∈ (program.analyze ⟨.empty, limit⟩).findings,
      finding.diagnostic.Anchored source := by
  intro finding hfinding
  refine Diagnostic.anchored_of_marks fun label hlabel => ?_
  obtain ⟨node, hnode, hspan⟩ := program.standsIn_of_mem_labels limit finding hfinding label hlabel
  rw [← hspan]
  exact (Program.sited_of_mem_nodes h (ordered_tokens source) node hnode).placed.marks

theorem Finding.code_ne_unrecognized (finding : Finding) :
    finding.diagnostic.code ≠ .unrecognizedCharacter := by
  cases finding <;> simp [Finding.diagnostic, Finding.code]

/-- After the diagnostics of stray text come others, which point into the source. -/
theorem check_eq_strays_append (limit : Nat) (source : String) :
    ∃ rest, (check limit source).log.diagnostics = strayDiagnostics source ++ rest ∧
      ∀ diagnostic ∈ rest,
        diagnostic.code ≠ .unrecognizedCharacter ∧ diagnostic.Anchored source := by
  cases hdeep : Nesting.exceeding? limit (tokens source) with
  | some span =>
    rw [check_of_exceeding hdeep]
    obtain ⟨t, ht, hspan⟩ := Nesting.mem_of_exceeding? hdeep
    refine ⟨_, rfl, List.forall_mem_singleton.2 ⟨Finding.code_ne_unrecognized _, ?_⟩⟩
    refine Diagnostic.anchored_of_marks (List.forall_mem_singleton.2 ?_)
    show Marks source span
    rw [← hspan]
    exact inText_of_mem_tokens ht
  | none =>
    cases hread : Program.ofTokens source.utf8ByteSize (tokens source) with
    | error error =>
      rw [check_of_error hdeep hread]
      have hcode : error.diagnostic.code ≠ .unrecognizedCharacter :=
        show Code.syntaxError ≠ .unrecognizedCharacter by decide
      exact ⟨_, rfl, List.forall_mem_singleton.2 ⟨hcode, SyntaxError.anchored hread⟩⟩
    | ok program =>
      by_cases hstrays : strays source = []
      · rw [check_of_program hdeep hread hstrays]
        refine ⟨_, by rw [strayDiagnostics, hstrays]; rfl, fun diagnostic hmem => ?_⟩
        obtain ⟨finding, hfinding, rfl⟩ := List.mem_map.1 hmem
        exact ⟨finding.code_ne_unrecognized, anchored_of_program hread limit finding hfinding⟩
      · rw [check_of_strays hdeep hread hstrays]
        exact ⟨[], (List.append_nil _).symm, List.forall_mem_nil _⟩

theorem anchored_of_mem_check (limit : Nat) (source : String) :
    ∀ diagnostic ∈ (check limit source).log.diagnostics, diagnostic.Anchored source := by
  intro diagnostic hmem
  obtain ⟨rest, hsplit, hrest⟩ := check_eq_strays_append limit source
  rw [hsplit] at hmem
  rcases List.mem_append.1 hmem with hmem | hmem
  · obtain ⟨stray, hstray, rfl⟩ := List.mem_map.1 hmem
    exact Stray.anchored hstray
  · exact (hrest diagnostic hmem).2

/-- Every diagnostic of a check points into the source: both ends of each label are
boundaries between characters, and there is text between them, except at the end of the
source in a syntax error.  The diagnostics of stray text come first, one after the other
in the source. -/
theorem check_labels_in_text (limit : Nat) (source : String) :
    (∀ diagnostic ∈ (check limit source).log.diagnostics, diagnostic.Anchored source) ∧
    ∃ first rest, (check limit source).log.diagnostics = first ++ rest ∧
      (∀ diagnostic ∈ first, diagnostic.code = .unrecognizedCharacter) ∧
      (∀ diagnostic ∈ rest, diagnostic.code ≠ .unrecognizedCharacter) ∧
      first.Pairwise fun earlier later => earlier.primary.span.Before later.primary.span := by
  obtain ⟨rest, hsplit, hrest⟩ := check_eq_strays_append limit source
  constructor
  · exact anchored_of_mem_check limit source
  · refine ⟨strayDiagnostics source, rest, hsplit, ?_, fun d hd => (hrest d hd).1, ?_⟩
    · intro diagnostic hmem
      obtain ⟨stray, -, rfl⟩ := List.mem_map.1 hmem
      rfl
    · exact List.pairwise_map.2 (strays_pairwise source)

/-- Stray text of two bytes, and a syntax error at the end. -/
theorem check_labels_in_text_stray :
    (check 8 "é 1").log.diagnostics.map (fun diagnostic =>
        (diagnostic.code, diagnostic.labels.map (·.span))) =
      [(.unrecognizedCharacter, [⟨0, 2⟩]), (.syntaxError, [⟨4, 4⟩])] ∧
    (∀ diagnostic ∈ (check 8 "é 1").log.diagnostics, diagnostic.Anchored "é 1") ∧
    ∃ first rest, (check 8 "é 1").log.diagnostics = first ++ rest ∧
      (∀ diagnostic ∈ first, diagnostic.code = .unrecognizedCharacter) ∧
      (∀ diagnostic ∈ rest, diagnostic.code ≠ .unrecognizedCharacter) ∧
      first.Pairwise fun earlier later => earlier.primary.span.Before later.primary.span :=
  ⟨by decide +kernel, check_labels_in_text 8 "é 1"⟩

end TagLang
