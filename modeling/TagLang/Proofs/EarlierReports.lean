import TagLang.Proofs.Stages

/-!
# Reading into a log that already holds reports

A source can be read into a log that other steps have written to.  This module compares such a
reading with the reading into an empty log.

* `Log.parse_log`: the same diagnostics are added, behind the earlier ones.
* `Log.parse_program`: the same program is given out, unless an earlier report is an error.
* `Log.parse_empty_eq_none_iff`: into an empty log, no program is given out exactly when an
  error is reported.

`parse_beside_earlier_reports` puts them together.  An earlier error is taken for one of the
source itself: `parse_withholds_program` has a program that is withheld without a report.
-/

namespace TagLang

section

variable (log : Log) (limit : Nat) (source : String)

/-- The diagnostics that reading the source adds do not depend on the log. -/
theorem Log.parse_log :
    (log.parse limit source).2 = log.append (Log.empty.parse limit source).2.diagnostics := by
  cases hdeep : Nesting.exceeding? limit (tokens source) with
  | some span => simp [Log.parse_of_exceeding hdeep, Log.report, Log.append, Log.empty]
  | none =>
    cases hread : Program.ofTokens source.utf8ByteSize (tokens source) with
    | error error => simp [Log.parse_of_error hdeep hread, Log.report, Log.append, Log.empty]
    | ok program => simp [Log.parse_of_ok hdeep hread, Log.append, Log.empty]

/-- The program that is given out is that of an empty log, if the log holds no error. -/
theorem Log.parse_program :
    (log.parse limit source).1 =
      if log.hasErrors then none else (Log.empty.parse limit source).1 := by
  refine Option.ext fun program => ?_
  cases hlog : log.hasErrors with
  | true => simp [Log.parse_eq_some_iff, hlog]
  | false =>
    have hempty : Log.empty.hasErrors = false := rfl
    simp only [Log.parse_eq_some_iff, hlog, hempty, Bool.false_eq_true, if_false]

theorem Log.exists_error_report {diagnostic : Diagnostic} (h : diagnostic.severity = .error) :
    ∃ reported ∈ (log.report diagnostic).diagnostics, reported.severity = .error :=
  ⟨diagnostic, by simp [Log.report, Log.append], h⟩

/-- Each stage that fails reports an error, and stray text is one. -/
theorem Log.parse_empty_eq_none_iff :
    (Log.empty.parse limit source).1 = none ↔
      ∃ diagnostic ∈ (Log.empty.parse limit source).2.diagnostics,
        diagnostic.severity = .error := by
  cases hdeep : Nesting.exceeding? limit (tokens source) with
  | some span =>
    rw [Log.parse_of_exceeding hdeep]
    simp only [true_iff]
    exact Log.exists_error_report _ rfl
  | none =>
    cases hread : Program.ofTokens source.utf8ByteSize (tokens source) with
    | error error =>
      rw [Log.parse_of_error hdeep hread]
      simp only [true_iff]
      exact Log.exists_error_report _ rfl
    | ok program => simp [Log.parse_of_ok hdeep hread, Log.hasErrors, Diagnostic.isError]

end

/-- Reading a source into any log, compared with reading it into an empty one.

The log grows by the same diagnostics.  The reading that starts from an empty log gives out no
program exactly when one of them is an error.  A log that holds no error leaves the program as
it is; one that does hold an error withholds it.  So the two readings give the same, and the
reading gives out no program exactly when it reports an error, if and only if no error stands
in the log or the source has one of its own. -/
theorem parse_beside_earlier_reports (log : Log) (limit : Nat) (source : String) :
    let alone := Log.empty.parse limit source
    let read := log.parse limit source
    let reports := ∃ diagnostic ∈ alone.2.diagnostics, diagnostic.severity = .error
    read.2 = log.append alone.2.diagnostics ∧
    (alone.1 = none ↔ reports) ∧
    read.1 = (if log.hasErrors then none else alone.1) ∧
    (read.1 = alone.1 ∧ (read.1 = none ↔ reports) ↔ log.hasErrors = false ∨ reports) := by
  intro alone read reports
  have hnone : alone.1 = none ↔ reports := Log.parse_empty_eq_none_iff limit source
  have hprogram : read.1 = if log.hasErrors then none else alone.1 :=
    log.parse_program limit source
  refine ⟨log.parse_log limit source, hnone, hprogram, ?_⟩
  cases hlog : log.hasErrors with
  | false =>
    rw [hlog] at hprogram
    simp [hprogram, hnone]
  | true =>
    rw [hlog, if_pos rfl] at hprogram
    rw [hprogram, ← hnone]
    simp [eq_comm]

/-- A log with one error, which no source has caused. -/
def strangeLog : Log :=
  ⟨[(Finding.undeclared ⟨"x", ⟨0, 1⟩⟩).diagnostic]⟩

/-- Behind the error, a correct source is read without a report, and its program is withheld. -/
theorem parse_withholds_program :
    (Log.empty.parse defaultLimit "1;").1.isSome = true ∧
    (Log.empty.parse defaultLimit "1;").2 = .empty ∧
    (strangeLog.parse defaultLimit "1;").1 = none ∧
    (strangeLog.parse defaultLimit "1;").2 = strangeLog := by
  decide +kernel

end TagLang
