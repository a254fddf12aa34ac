import TagLang.Check

/-!
# The stages of a check

A check cuts the source into tokens, counts their nesting, reads a program, and
analyses it.  Each stage can be the last one.  `Log.parse_of_exceeding`, `Log.parse_of_error`
and `Log.parse_of_ok` say what reading gives, and four equations what the report is in each
case:

* `check_of_exceeding`: the tokens are nested too deep;
* `check_of_error`: the tokens are no program;
* `check_of_strays`: they are one, but there is stray text between them;
* `check_of_program`: the program is analysed.

The diagnostics of stray text come first in every case, `strays_prefix_check`.
-/

namespace TagLang

variable {limit : Nat} {source : String}

/-- The diagnostics of the stray text in a source. -/
def strayDiagnostics (source : String) : List Diagnostic :=
  (strays source).map Stray.diagnostic

/-- Stray text is an error. -/
theorem hasErrors_strayDiagnostics (log : Log) (source : String) :
    (log.append (strayDiagnostics source)).hasErrors =
      (log.hasErrors || !(strays source).isEmpty) := by
  unfold Log.hasErrors Log.append strayDiagnostics
  rw [List.any_append]
  cases strays source with
  | nil => rfl
  | cons stray rest =>
    have hstray : stray.diagnostic.isError = true := rfl
    simp [hstray]

section

variable {log : Log}

theorem Log.parse_of_exceeding {span : Span}
    (h : Nesting.exceeding? limit (tokens source) = some span) :
    log.parse limit source = (none,
      (log.append (strayDiagnostics source)).report (Finding.tooDeep limit span).diagnostic) := by
  simp only [Log.parse, Log.checkNesting, h]
  rfl

theorem Log.parse_of_error (hnone : Nesting.exceeding? limit (tokens source) = none)
    {error : SyntaxError}
    (h : Program.ofTokens source.utf8ByteSize (tokens source) = .error error) :
    log.parse limit source =
      (none, (log.append (strayDiagnostics source)).report error.diagnostic) := by
  simp only [Log.parse, Log.checkNesting, hnone, Log.reportNesting, Log.readProgram, h]
  rfl

theorem Log.parse_of_ok (hnone : Nesting.exceeding? limit (tokens source) = none)
    {program : Program}
    (h : Program.ofTokens source.utf8ByteSize (tokens source) = .ok program) :
    log.parse limit source =
      (if (log.append (strayDiagnostics source)).hasErrors then none else some program,
        log.append (strayDiagnostics source)) := by
  simp only [Log.parse, Log.checkNesting, hnone, Log.reportNesting, Log.readProgram, h]
  rfl

/-- A program is read exactly when every stage before the analysis succeeds and the log
held no error. -/
theorem Log.parse_eq_some_iff {program : Program} :
    (log.parse limit source).1 = some program ↔
      Nesting.exceeding? limit (tokens source) = none ∧
        Program.ofTokens source.utf8ByteSize (tokens source) = .ok program ∧
        strays source = [] ∧ log.hasErrors = false := by
  cases hdeep : Nesting.exceeding? limit (tokens source) with
  | some span => simp [Log.parse_of_exceeding hdeep]
  | none =>
    cases hread : Program.ofTokens source.utf8ByteSize (tokens source) with
    | error error => simp [Log.parse_of_error hdeep hread]
    | ok read =>
      rw [Log.parse_of_ok hdeep hread, hasErrors_strayDiagnostics]
      cases log.hasErrors <;> cases strays source <;> simp

end

theorem check_of_exceeding {span : Span}
    (h : Nesting.exceeding? limit (tokens source) = some span) :
    check limit source =
      ⟨⟨strayDiagnostics source ++ [(Finding.tooDeep limit span).diagnostic]⟩, []⟩ := by
  rw [check, Log.parse_of_exceeding h]
  rfl

theorem check_of_error (hnone : Nesting.exceeding? limit (tokens source) = none)
    {error : SyntaxError}
    (h : Program.ofTokens source.utf8ByteSize (tokens source) = .error error) :
    check limit source = ⟨⟨strayDiagnostics source ++ [error.diagnostic]⟩, []⟩ := by
  rw [check, Log.parse_of_error hnone h]
  rfl

theorem check_of_strays (hnone : Nesting.exceeding? limit (tokens source) = none)
    {program : Program}
    (h : Program.ofTokens source.utf8ByteSize (tokens source) = .ok program)
    (hstrays : strays source ≠ []) :
    check limit source = ⟨⟨strayDiagnostics source⟩, []⟩ := by
  have herrors : (Log.empty.append (strayDiagnostics source)).hasErrors = true := by
    simp [hasErrors_strayDiagnostics, hstrays]
  rw [check, Log.parse_of_ok hnone h, if_pos herrors]
  rfl

theorem check_of_program (hnone : Nesting.exceeding? limit (tokens source) = none)
    {program : Program}
    (h : Program.ofTokens source.utf8ByteSize (tokens source) = .ok program)
    (hstrays : strays source = []) :
    check limit source =
      ⟨⟨(program.analyze ⟨.empty, limit⟩).findings.map Finding.diagnostic⟩,
        (program.analyze ⟨.empty, limit⟩).statements⟩ := by
  rw [check, Log.parse_of_ok hnone h, strayDiagnostics, hstrays]
  rfl

/-- Whatever else is reported, stray text is reported first. -/
theorem strays_prefix_check (limit : Nat) (source : String) :
    strayDiagnostics source <+: (check limit source).log.diagnostics := by
  cases hdeep : Nesting.exceeding? limit (tokens source) with
  | some span =>
    rw [check_of_exceeding hdeep]
    exact List.prefix_append _ _
  | none =>
    cases hread : Program.ofTokens source.utf8ByteSize (tokens source) with
    | error error =>
      rw [check_of_error hdeep hread]
      exact List.prefix_append _ _
    | ok program =>
      by_cases hstrays : strays source = []
      · rw [strayDiagnostics, hstrays]
        exact List.nil_prefix
      · exact ⟨[], by rw [check_of_strays hdeep hread hstrays, List.append_nil]⟩

end TagLang
