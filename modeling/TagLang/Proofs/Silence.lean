import TagLang.Proofs.Depth

/-!
# When a resolution is silent

A resolution may start anywhere: below other nodes, after other findings, and after the limit
has been reported.  `resolve_silent_iff_typed` says that none of this matters to an expression
within the limit.  The resolution decides the judgment `HasTag`.

`Proofs.Typing` has the two directions for a resolution that starts with the flag clear.  The
laws of the flag in `Proofs.Depth` carry them over.
-/

namespace TagLang

/-- Within the limit, the findings do not depend on the flag. -/
theorem Expr.findings_flag {env : Env} {e : Expr} {depth : Nat}
    (h : depth + e.height ≤ env.limit) (expected : Option Tag) (flag flag' : Bool) :
    (e.resolve env expected depth flag).findings =
      (e.resolve env expected depth flag').findings := by
  have hflag : ∀ flag, (e.resolve env expected depth true).findings =
      (e.resolve env expected depth flag).findings := by
    intro flag
    rw [e.resolve_flagged env expected depth flag]
    exact (Expr.besidesLimit (.inr h) expected).filter_eq
  exact (hflag flag).symm.trans (hflag flag')

/-- No visible name gives `undefined` if no declaration does. -/
theorem Scopes.allDefined {scopes : Scopes}
    (h : ∀ scope ∈ scopes.current :: scopes.outer, ∀ declaration ∈ scope,
      declaration.symbol.Defined) :
    AllDefined scopes.symbol? := by
  intro text symbol hsymbol
  obtain ⟨declaration, hfind, rfl⟩ := Option.map_eq_some_iff.1 hsymbol
  obtain ⟨scope, hscope, hdeclaration⟩ := List.exists_of_findSome?_eq_some hfind
  exact h scope hscope declaration (List.mem_of_find?_eq_some hdeclaration)

/-- Where no visible name gives `undefined`, an expression within the limit is resolved
without a diagnostic exactly if it is typed.  It then resolves to its tag, and the starting
point is as before. -/
theorem resolve_silent_iff_typed (e : Expr) (context : Context)
    (hdefined : AllDefined context.scopes.symbol?)
    (hheight : context.depth + e.height ≤ context.limit) :
    ((context.resolve e).2.log = context.log ↔
      ∃ tag, HasTag context.scopes.symbol? context.expected e tag) ∧
    ∀ tag, HasTag context.scopes.symbol? context.expected e tag →
      context.resolve e = (tag, context) := by
  let env : Env := ⟨context.scopes, context.limit⟩
  have htyped : ∀ tag, HasTag context.scopes.symbol? context.expected e tag →
      context.resolve e = (tag, context) := by
    intro tag h
    have houtcome : e.resolve ⟨context.scopes, context.limit⟩ context.expected context.depth
        context.exceeded = ⟨tag, context.exceeded, []⟩ :=
      h.resolve_eq hdefined context.depth context.exceeded hheight
    have hlog : context.log.record [] = context.log := (Log.record_eq_self_iff _ _).2 rfl
    simp only [Context.resolve, houtcome, hlog]
  refine ⟨⟨?_, ?_⟩, htyped⟩
  · intro hlog
    have hsilent : (e.resolve env context.expected context.depth context.exceeded).findings = [] :=
      (Log.record_eq_self_iff _ _).1 hlog
    rw [Expr.findings_flag hheight _ _ false] at hsilent
    have hnone : NoError (e.resolve env context.expected context.depth false).findings := by
      rw [hsilent]
      exact noError_nil
    exact ⟨_, (e.resolve_sound env hdefined _ _ hnone).1⟩
  · rintro ⟨tag, h⟩
    rw [htyped tag h]

/-- A starting point below the root with the limit reported, where `f` is a function from
`int|str` to `bool` and `x` has the tag `any`. -/
def reportedContext : Context where
  scopes := ⟨[⟨⟨"f", ⟨3, 4⟩⟩, .function ⟨.tagged [.intOrStr], .bool⟩⟩],
    [[⟨⟨"x", ⟨0, 1⟩⟩, .value .any⟩]]⟩
  limit := 4
  expected := some .int
  depth := 1
  exceeded := true
  log := Log.empty.record [.tooDeep 4 ⟨8, 9⟩]

/-- The call `f(x ? 1 : "a")`. -/
def choosingCall : Expr :=
  .call ⟨"f", ⟨10, 11⟩⟩
    [.conditional (.var ⟨"x", ⟨12, 13⟩⟩ ⟨12, 13⟩) (.literal (.int "1") ⟨16, 17⟩)
      (.literal (.str "a") ⟨20, 23⟩) ⟨12, 23⟩] ⟨10, 24⟩

/-- The expectation for the argument covers both branches, and the call is silent. -/
theorem resolve_silent_choosing_call :
    AllDefined reportedContext.scopes.symbol? ∧
    reportedContext.depth + choosingCall.height ≤ reportedContext.limit ∧
    reportedContext.resolve choosingCall = (.bool, reportedContext) := by
  have hdefined : AllDefined reportedContext.scopes.symbol? := by
    apply Scopes.allDefined
    simp [reportedContext, Symbol.Defined]
  have hheight : reportedContext.depth + choosingCall.height ≤ reportedContext.limit := by
    decide
  have hargument : ArgumentsFit reportedContext.scopes.symbol? [some .intOrStr]
      [.conditional (.var ⟨"x", ⟨12, 13⟩⟩ ⟨12, 13⟩) (.literal (.int "1") ⟨16, 17⟩)
        (.literal (.str "a") ⟨20, 23⟩) ⟨12, 23⟩] :=
    .known (.conditional (.var rfl) rfl .int .str rfl (.inr (.inr ⟨_, rfl, rfl⟩))) rfl .nil
  refine ⟨hdefined, hheight, ?_⟩
  exact (resolve_silent_iff_typed choosingCall reportedContext hdefined hheight).2 .bool
    (.call rfl hargument)

end TagLang
