import Mathlib.Data.List.Induction
import TagLang.Proofs.Scoping

/-!
# Histories of scopes

Scopes change by three operations: one opens a scope, one closes the current scope, and one
declares a name.  A history is a list of operations, carried out from the start on.  This
module says what the scopes after a history show, in terms of the history alone.

* `History.depth` counts the scopes that are open.  A scope is known by its depth, and it
  stays open as long as the history does not get below that depth.
* `History.OpenAt` says which operation of the history declares a name in a scope that is
  still open, and `History.FirstAt` which one does so first.
* `History.ShownBy` is the invariant.  Each scope holds the first declarations that belong
  to its depth.  `History.shownBy_perform` is the step and `History.shownBy_after` the run.
* `Scopes.outer_performAll` and `Balanced.performAll` are about operations that close what
  they open.
* `scopes_show_history` is the result.
-/

namespace TagLang

/-! ## Operations -/

/-- A change of the scopes. -/
inductive Operation where
  | enter
  | exit
  | declare (declaration : Declaration)

namespace Scopes

/-- The scopes after an operation.  A declaration may be refused. -/
def perform (scopes : Scopes) : Operation → Scopes
  | .enter => scopes.enter
  | .exit => scopes.exit
  | .declare declaration => (declareName scopes declaration.name declaration.symbol).scopes

/-- The scopes after operations. -/
def performAll (scopes : Scopes) (operations : List Operation) : Scopes :=
  operations.foldl perform scopes

/-- All scopes, the innermost first. -/
def stack (scopes : Scopes) : List Scope :=
  scopes.current :: scopes.outer

theorem performAll_concat (scopes : Scopes) (operations : List Operation) (op : Operation) :
    scopes.performAll (operations ++ [op]) = (scopes.performAll operations).perform op := by
  simp [performAll]

theorem perform_declare (scopes : Scopes) (declaration : Declaration) :
    scopes.perform (.declare declaration) = scopes.add declaration :=
  declareName_scopes scopes declaration.name declaration.symbol

end Scopes

/-! ## Histories -/

/-- Operations that are carried out from the start on. -/
abbrev History := List Operation

/-- How many scopes are open after an operation.  The outermost scope stays open. -/
def Operation.depthAfter (depth : Nat) : Operation → Nat
  | .enter => depth + 1
  | .exit => max 1 (depth - 1)
  | .declare _ => depth

namespace History

/-- The scopes that a history leads to. -/
def after (history : History) : Scopes :=
  Scopes.empty.performAll history

/-- How many scopes are open after a history. -/
def depth (history : History) : Nat :=
  history.foldl Operation.depthAfter 1

/-- The operation number `i` declares a name in the scope at a depth, and the scope is
still open: the history never gets below the depth again. -/
structure OpenAt (history : History) (level i : Nat) (declaration : Declaration) : Prop where
  declared : history[i]? = some (.declare declaration)
  reached : depth (history.take i) = level
  kept : ∀ k, i ≤ k → k ≤ history.length → level ≤ depth (history.take k)

/-- The operation number `i` is the first that declares the name `text` in the open scope
at a depth. -/
structure FirstAt (history : History) (level : Nat) (text : String) (i : Nat)
    (declaration : Declaration) : Prop where
  openAt : history.OpenAt level i declaration
  named : declaration.name.text = text
  first : ∀ j other, history.OpenAt level j other → other.name.text = text → i ≤ j

/-- The open scope at a depth has no declaration of the name. -/
def NoneAt (history : History) (level : Nat) (text : String) : Prop :=
  ∀ i declaration, history.OpenAt level i declaration → declaration.name.text ≠ text

/-- Among the open scopes up to a depth, the innermost that declares the name does so first
with the operation number `i`. -/
def Innermost (history : History) (bound : Nat) (text : String) (i : Nat)
    (declaration : Declaration) : Prop :=
  ∃ level ≤ bound, history.FirstAt level text i declaration ∧
    ∀ inner, level < inner → inner ≤ bound → history.NoneAt inner text

variable {history : History} {level i : Nat} {text : String} {declaration : Declaration}

theorem depth_concat (history : History) (op : Operation) :
    depth (history ++ [op]) = op.depthAfter (depth history) := by
  simp [depth]

theorem after_concat (history : History) (op : Operation) :
    after (history ++ [op]) = (after history).perform op :=
  Scopes.performAll_concat .empty history op

theorem OpenAt.lt_length (h : history.OpenAt level i declaration) : i < history.length := by
  have hsome := h.declared
  by_contra hlength
  rw [List.getElem?_eq_none (by omega)] at hsome
  contradiction

theorem OpenAt.le_depth (h : history.OpenAt level i declaration) : level ≤ depth history := by
  have hkept := h.kept history.length (by have := h.lt_length; omega) (Nat.le_refl _)
  rwa [List.take_length] at hkept

/-- What one more operation does to the declarations in open scopes.  Those of a scope that
it closes are gone, and a declaration in the current scope is new. -/
theorem openAt_concat {op : Operation} :
    OpenAt (history ++ [op]) level i declaration ↔
      history.OpenAt level i declaration ∧ level ≤ depth (history ++ [op]) ∨
        i = history.length ∧ op = .declare declaration ∧ level = depth history := by
  have htake : ∀ k, k ≤ history.length → (history ++ [op]).take k = history.take k :=
    fun k hk => List.take_append_of_le_length hk
  constructor
  · intro h
    have hlength := h.lt_length
    rw [List.length_append, List.length_singleton] at hlength
    have hdeclared := h.declared
    by_cases hi : i < history.length
    · left
      rw [List.getElem?_append_left hi] at hdeclared
      refine ⟨⟨hdeclared, ?_, ?_⟩, h.le_depth⟩
      · rw [← htake i (by omega)]
        exact h.reached
      · intro k hik hk
        rw [← htake k hk]
        exact h.kept k hik (by rw [List.length_append]; omega)
    · right
      obtain rfl : i = history.length := by omega
      rw [List.getElem?_concat_length] at hdeclared
      refine ⟨rfl, Option.some.inj hdeclared, ?_⟩
      rw [← h.reached, htake _ (Nat.le_refl _), List.take_length]
  · rintro (⟨h, hlevel⟩ | ⟨rfl, rfl, rfl⟩)
    · have hi := h.lt_length
      refine ⟨?_, ?_, ?_⟩
      · rw [List.getElem?_append_left hi]
        exact h.declared
      · rw [htake i (by omega)]
        exact h.reached
      · intro k hik hk
        rw [List.length_append, List.length_singleton] at hk
        by_cases hlast : k ≤ history.length
        · rw [htake k hlast]
          exact h.kept k hik hlast
        · rw [List.take_of_length_le (by rw [List.length_append, List.length_singleton]; omega)]
          exact hlevel
    · refine ⟨List.getElem?_concat_length, ?_, ?_⟩
      · rw [htake _ (Nat.le_refl _), List.take_length]
      · intro k hik hk
        rw [List.length_append, List.length_singleton] at hk
        by_cases hlast : k = history.length
        · exact Nat.le_of_eq (by rw [hlast, htake _ (Nat.le_refl _), List.take_length])
        · rw [List.take_of_length_le (by rw [List.length_append, List.length_singleton]; omega)]
          exact Nat.le_of_eq (depth_concat history (.declare declaration)).symm

/-- A name that is declared in an open scope is declared there for the first time. -/
theorem OpenAt.exists_first (h : history.OpenAt level i declaration)
    (htext : declaration.name.text = text) :
    ∃ j first, history.FirstAt level text j first := by
  induction i using Nat.strongRecOn generalizing declaration with
  | ind i ih =>
    by_cases hearlier : ∃ j, j < i ∧ ∃ other, history.OpenAt level j other ∧ other.name.text = text
    · obtain ⟨j, hj, other, hother, hothertext⟩ := hearlier
      exact ih j hj hother hothertext
    · refine ⟨i, declaration, h, htext, fun j other hother hothertext => ?_⟩
      by_contra hj
      exact hearlier ⟨j, by omega, other, hother, hothertext⟩

theorem noneAt_iff :
    history.NoneAt level text ↔ ∀ i first, ¬history.FirstAt level text i first := by
  constructor
  · intro h i first hfirst
    exact h i first hfirst.openAt hfirst.named
  · intro h i declaration hopen htext
    obtain ⟨j, first, hfirst⟩ := hopen.exists_first htext
    exact h j first hfirst

theorem FirstAt.unique {j : Nat} {other : Declaration}
    (h : history.FirstAt level text i declaration) (h' : history.FirstAt level text j other) :
    i = j ∧ declaration = other := by
  have hij := h.first j other h'.openAt h'.named
  have hji := h'.first i declaration h.openAt h.named
  obtain rfl : i = j := by omega
  have hsame := h.openAt.declared.symm.trans h'.openAt.declared
  exact ⟨rfl, Operation.declare.inj (Option.some.inj hsame)⟩

/-! ## The invariant -/

/-- Every scope holds the declarations that come first at its depth. -/
def ShownBy (history : History) : List Scope → Prop
  | [] => True
  | scope :: outer =>
    (∀ text declaration, scope.find? text = some declaration ↔
      ∃ i, history.FirstAt (outer.length + 1) text i declaration) ∧
    history.ShownBy outer

/-- Scopes show a history as long as the open declarations at their depths stay the same. -/
theorem ShownBy.congr {later : History} {scopes : List Scope} (h : history.ShownBy scopes)
    (hsame : ∀ level ≤ scopes.length, ∀ i declaration,
      later.OpenAt level i declaration ↔ history.OpenAt level i declaration) :
    later.ShownBy scopes := by
  induction scopes with
  | nil => trivial
  | cons scope outer ih =>
    refine ⟨fun text declaration => ?_, ih h.2 fun level hlevel => hsame level ?_⟩
    · rw [h.1 text declaration]
      have hlevel := hsame (outer.length + 1) (Nat.le_refl _)
      refine exists_congr fun i => ⟨fun hfirst => ?_, fun hfirst => ?_⟩
      · exact ⟨(hlevel _ _).2 hfirst.openAt, hfirst.named,
          fun j other hother => hfirst.first j other ((hlevel _ _).1 hother)⟩
      · exact ⟨(hlevel _ _).1 hfirst.openAt, hfirst.named,
          fun j other hother => hfirst.first j other ((hlevel _ _).2 hother)⟩
    · rw [List.length_cons]
      omega

theorem ShownBy.find?_eq_none_iff {scope : Scope} {outer : List Scope}
    (h : history.ShownBy (scope :: outer)) :
    scope.find? text = none ↔ history.NoneAt (outer.length + 1) text := by
  rw [noneAt_iff, Option.eq_none_iff_forall_ne_some]
  constructor
  · intro hnone i first hfirst
    exact hnone first ((h.1 text first).2 ⟨i, hfirst⟩)
  · intro hnone first hfirst
    obtain ⟨i, hi⟩ := (h.1 text first).1 hfirst
    exact hnone i first hi

/-- A declaration goes into the current scope, unless the name is declared there. -/
theorem ShownBy.add {scopes : Scopes} (h : history.ShownBy scopes.stack)
    (hdepth : scopes.depth = depth history) (added : Declaration) :
    ShownBy (history ++ [.declare added]) (scopes.add added).stack := by
  have hstep : ∀ level i declaration,
      OpenAt (history ++ [.declare added]) level i declaration ↔
        history.OpenAt level i declaration ∨
          i = history.length ∧ added = declaration ∧ level = depth history := by
    intro level i declaration
    rw [openAt_concat, depth_concat, Operation.declare.injEq]
    exact or_congr_left ⟨And.left, fun hopen => ⟨hopen, hopen.le_depth⟩⟩
  refine ⟨fun text declaration => ?_, h.2.congr fun level hlevel i declaration => ?_⟩
  · have hcurrent : scopes.outer.length + 1 = depth history := hdepth
    show (scopes.current.add added).find? text = some declaration ↔ _
    rw [Scope.find?_add]
    cases hfind : scopes.current.find? text with
    | some found =>
      -- The name is taken, by an operation that comes before the new one.
      obtain ⟨i, hfirst⟩ := (h.1 text found).1 hfind
      have hlater :
          FirstAt (history ++ [.declare added]) (scopes.outer.length + 1) text i found := by
        refine ⟨(hstep _ _ _).2 (.inl hfirst.openAt), hfirst.named, fun j other hother htext => ?_⟩
        rcases (hstep _ _ _).1 hother with hother | ⟨rfl, -, -⟩
        · exact hfirst.first j other hother htext
        · exact Nat.le_of_lt hfirst.openAt.lt_length
      rw [Option.some_or, Option.some.injEq]
      constructor
      · rintro rfl
        exact ⟨i, hlater⟩
      · rintro ⟨j, hj⟩
        exact (hlater.unique hj).2
    | none =>
      have hnone := h.find?_eq_none_iff.1 hfind
      have hadded : Scope.find? [added] text = some declaration ↔
          added = declaration ∧ added.name.text = text := by
        by_cases htext : added.name.text = text
        · simp [Scope.find?, htext]
        · simp [Scope.find?, htext]
      rw [Option.none_or, hadded]
      constructor
      · rintro ⟨rfl, htext⟩
        refine ⟨history.length, (hstep _ _ _).2 (.inr ⟨rfl, rfl, hcurrent⟩), htext, ?_⟩
        intro j other hother hothertext
        rcases (hstep _ _ _).1 hother with hother | ⟨rfl, -, -⟩
        · exact absurd hothertext (hnone j other hother)
        · exact Nat.le_refl _
      · rintro ⟨i, hfirst⟩
        rcases (hstep _ _ _).1 hfirst.openAt with hopen | ⟨-, rfl, -⟩
        · exact absurd hfirst.named (hnone i declaration hopen)
        · exact ⟨rfl, hfirst.named⟩
  · rw [hstep]
    have houter : scopes.outer.length + 1 = depth history := hdepth
    have hbelow : ¬(i = history.length ∧ added = declaration ∧ level = depth history) := by
      rintro ⟨-, -, rfl⟩
      have : depth history ≤ scopes.outer.length := hlevel
      omega
    exact or_iff_left hbelow

/-- Opening and closing scopes leaves the declarations in the other scopes alone. -/
theorem openAt_concat_of_le {op : Operation} (hop : ∀ declaration, op ≠ .declare declaration)
    (hlevel : level ≤ depth (history ++ [op])) :
    OpenAt (history ++ [op]) level i declaration ↔ history.OpenAt level i declaration := by
  rw [openAt_concat]
  constructor
  · rintro (⟨h, -⟩ | ⟨-, h, -⟩)
    · exact h
    · exact absurd h (hop declaration)
  · exact fun h => .inl ⟨h, hlevel⟩

/-- One operation keeps the invariant. -/
theorem shownBy_perform {scopes : Scopes} (h : history.ShownBy scopes.stack)
    (hdepth : scopes.depth = depth history) (op : Operation) :
    ShownBy (history ++ [op]) (scopes.perform op).stack ∧
      (scopes.perform op).depth = depth (history ++ [op]) := by
  rw [depth_concat, ← hdepth]
  cases op with
  | enter =>
    have hlater : depth (history ++ [.enter]) = scopes.depth + 1 := by
      rw [depth_concat, hdepth]
      rfl
    refine ⟨⟨fun text declaration => ?_, ?_⟩, rfl⟩
    · -- The new scope is deeper than everything declared so far.
      have hnothing :
          ∀ i, ¬FirstAt (history ++ [.enter]) (scopes.depth + 1) text i declaration := by
        intro i hfirst
        have hopen := (openAt_concat_of_le (by simp) (by omega)).1 hfirst.openAt
        have := hopen.le_depth
        omega
      show Scope.find? [] text = some declaration ↔ _
      rw [Scope.find?_nil]
      exact ⟨fun hfind => by contradiction, fun ⟨i, hfirst⟩ => absurd hfirst (hnothing i)⟩
    · refine h.congr fun level hlevel i declaration => openAt_concat_of_le (by simp) ?_
      have : level ≤ scopes.depth := hlevel
      omega
  | exit =>
    have hlater : depth (history ++ [.exit]) = max 1 (scopes.depth - 1) := by
      rw [depth_concat, hdepth]
      rfl
    obtain ⟨current, outer⟩ := scopes
    cases outer with
    | nil =>
      refine ⟨h.congr fun level hlevel i declaration => openAt_concat_of_le (by simp) ?_, rfl⟩
      rw [hlater]
      exact hlevel
    | cons next outer =>
      refine ⟨h.2.congr fun level hlevel i declaration => openAt_concat_of_le (by simp) ?_, ?_⟩
      · have : level ≤ outer.length + 1 := hlevel
        rw [hlater]
        show level ≤ max 1 (outer.length + 1)
        omega
      · show outer.length + 1 = max 1 (outer.length + 1)
        omega
  | declare declaration =>
    rw [Scopes.perform_declare]
    exact ⟨h.add hdepth declaration, rfl⟩

/-- The scopes after a history show it. -/
theorem shownBy_after (history : History) :
    history.ShownBy (after history).stack ∧ (after history).depth = depth history := by
  induction history using List.reverseRecOn with
  | nil =>
    refine ⟨⟨fun text declaration => ?_, trivial⟩, rfl⟩
    show Scope.find? [] text = some declaration ↔ _
    rw [Scope.find?_nil]
    refine ⟨fun hfind => by contradiction, fun ⟨i, hfirst⟩ => ?_⟩
    exact absurd hfirst.openAt.lt_length (Nat.not_lt_zero i)
  | append_singleton history op ih =>
    rw [after_concat]
    exact shownBy_perform ih.1 ih.2 op

/-! ## Lookups -/

theorem OpenAt.pos (h : history.OpenAt level i declaration) : 0 < level := by
  rw [← h.reached, ← (shownBy_after _).2]
  exact Nat.succ_pos _

/-- Looking through scopes from the inside finds the innermost declaration. -/
theorem ShownBy.findSome? {scopes : List Scope} (h : history.ShownBy scopes) :
    scopes.findSome? (·.find? text) = some declaration ↔
      ∃ i, history.Innermost scopes.length text i declaration := by
  induction scopes with
  | nil =>
    rw [List.findSome?_nil]
    refine ⟨fun hfind => by contradiction, ?_⟩
    rintro ⟨i, level, hlevel, hfirst, -⟩
    have hpos := hfirst.openAt.pos
    have : level ≤ 0 := hlevel
    omega
  | cons scope outer ih =>
    rw [List.findSome?_cons, List.length_cons]
    cases hfind : scope.find? text with
    | some found =>
      obtain ⟨i, hfirst⟩ := (h.1 text found).1 hfind
      show some found = some declaration ↔ _
      constructor
      · intro heq
        obtain rfl := Option.some.inj heq
        exact ⟨i, outer.length + 1, Nat.le_refl _, hfirst, fun inner _ _ => by omega⟩
      · rintro ⟨j, level, hlevel, hj, hinner⟩
        -- The scope itself has the name, so no scope around it is meant.
        by_cases hsame : level = outer.length + 1
        · subst hsame
          rw [(hfirst.unique hj).2]
        · have hnone := hinner (outer.length + 1) (by omega) (Nat.le_refl _)
          exact absurd hfirst.named (hnone i found hfirst.openAt)
    | none =>
      have hnone := h.find?_eq_none_iff.1 hfind
      show outer.findSome? (·.find? text) = some declaration ↔ _
      rw [ih h.2]
      refine exists_congr fun i => ⟨?_, ?_⟩
      · rintro ⟨level, hlevel, hfirst, hinner⟩
        refine ⟨level, by omega, hfirst, fun inner hlt hle => ?_⟩
        by_cases hlast : inner = outer.length + 1
        · rw [hlast]
          exact hnone
        · exact hinner inner hlt (by omega)
      · rintro ⟨level, hlevel, hfirst, hinner⟩
        have hne : level ≠ outer.length + 1 := by
          rintro rfl
          exact hnone i declaration hfirst.openAt hfirst.named
        exact ⟨level, by omega, hfirst, fun inner hlt hle => hinner inner hlt (by omega)⟩

theorem find?_after :
    (after history).find? text = some declaration ↔
      ∃ i, history.Innermost (depth history) text i declaration := by
  obtain ⟨hshown, hdepth⟩ := shownBy_after history
  rw [← hdepth]
  exact hshown.findSome?

theorem around?_after :
    (after history).around? text = some declaration ↔
      ∃ i, history.Innermost (depth history - 1) text i declaration := by
  obtain ⟨hshown, hdepth⟩ := shownBy_after history
  rw [← hdepth]
  exact hshown.2.findSome?

/-! ## Declarations -/

/-- A name is refused exactly when the current scope declares it, and the place of the
first declaration is given. -/
theorem declare_after_eq_error {name : Name} {symbol : Symbol} {duplicate : Duplicate} :
    (after history).declare name symbol = .error duplicate ↔
      ∃ i first, history.FirstAt (depth history) name.text i first ∧
        duplicate = ⟨name.text, first.name.span⟩ := by
  obtain ⟨hshown, hdepth⟩ := shownBy_after history
  have hcurrent := hshown.1 name.text
  rw [show (after history).outer.length + 1 = depth history from hdepth] at hcurrent
  unfold Scopes.declare
  cases hfind : (after history).current.find? name.text with
  | some found =>
    obtain ⟨i, hfirst⟩ := (hcurrent found).1 hfind
    show Except.error _ = Except.error duplicate ↔ _
    rw [Except.error.injEq]
    constructor
    · intro heq
      exact ⟨i, found, hfirst, heq.symm⟩
    · rintro ⟨j, other, hother, rfl⟩
      rw [(hfirst.unique hother).2]
  | none =>
    refine ⟨fun herror => by contradiction, ?_⟩
    rintro ⟨i, first, hfirst, -⟩
    rw [(hcurrent first).2 ⟨i, hfirst⟩] at hfind
    contradiction

/-- What was declared in a scope before an operation in the same scope, which is still open,
is in an open scope. -/
theorem OpenAt.of_take {n j : Nat} {other : Declaration}
    (h : history.OpenAt level n declaration) (hj : OpenAt (history.take n) level j other) :
    history.OpenAt level j other := by
  have hlength := h.lt_length
  have hjn : j < n := by
    have := hj.lt_length
    rw [List.length_take] at this
    omega
  have htake : ∀ k, k ≤ n → (history.take n).take k = history.take k := by
    intro k hk
    rw [List.take_take, Nat.min_eq_left hk]
  refine ⟨?_, ?_, fun k hjk hk => ?_⟩
  · rw [← List.getElem?_take_of_lt hjn]
    exact hj.declared
  · rw [← htake j (by omega)]
    exact hj.reached
  · by_cases hkn : k ≤ n
    · rw [← htake k hkn]
      exact hj.kept k hjk (by rw [List.length_take]; omega)
    · exact h.kept k (by omega) hk

/-- The first declaration of a name in a scope was accepted. -/
theorem FirstAt.accepted (h : history.FirstAt level text i declaration) :
    (after (history.take i)).declare declaration.name declaration.symbol =
      .ok (after (history.take (i + 1))) := by
  cases hdeclare : (after (history.take i)).declare declaration.name declaration.symbol with
  | error duplicate =>
    obtain ⟨j, other, hother, -⟩ := declare_after_eq_error.1 hdeclare
    rw [h.openAt.reached] at hother
    have hle := h.first j other (h.openAt.of_take hother.openAt) (hother.named.trans h.named)
    have hlt := hother.openAt.lt_length
    rw [List.length_take] at hlt
    omega
  | ok declared =>
    have hnext : history.take (i + 1) = history.take i ++ [.declare declaration] := by
      rw [List.take_add_one, h.openAt.declared]
      rfl
    rw [hnext, after_concat]
    show _ = Except.ok (declareName (after (history.take i)) declaration.name
      declaration.symbol).scopes
    rw [declareName, hdeclare]
    cases (after (history.take i)).shadowed? declaration.name.text <;> rfl

end History

/-! ## Operations that close what they open -/

namespace Operation

/-- Whether an operation opens a scope. -/
def isEnter : Operation → Bool
  | .enter => true
  | _ => false

/-- Whether an operation closes a scope. -/
def isExit : Operation → Bool
  | .exit => true
  | _ => false

end Operation

/-- As many scopes are closed as are opened, and at no point more. -/
structure Balanced (operations : List Operation) : Prop where
  even : operations.countP Operation.isExit = operations.countP Operation.isEnter
  covered : ∀ before, before <+: operations →
    before.countP Operation.isExit ≤ before.countP Operation.isEnter

/-- As long as no more scopes are closed than were opened, the scopes around the start stay
around what was opened. -/
theorem Scopes.outer_performAll (scopes : Scopes) (operations : List Operation)
    (hcovered : ∀ before, before <+: operations →
      before.countP Operation.isExit ≤ before.countP Operation.isEnter) :
    ∃ opened, (scopes.performAll operations).outer = opened ++ scopes.outer ∧
      opened.length + operations.countP Operation.isExit =
        operations.countP Operation.isEnter := by
  induction operations using List.reverseRecOn with
  | nil => exact ⟨[], rfl, rfl⟩
  | append_singleton operations op ih =>
    obtain ⟨opened, houter, hlength⟩ := ih fun before hbefore =>
      hcovered before (hbefore.trans (List.prefix_append _ _))
    have hall := hcovered _ (List.prefix_refl _)
    rw [Scopes.performAll_concat]
    rw [List.countP_append, List.countP_append] at hall ⊢
    cases op with
    | enter =>
      refine ⟨(scopes.performAll operations).current :: opened, ?_, ?_⟩
      · show (scopes.performAll operations).current :: (scopes.performAll operations).outer = _
        rw [houter, List.cons_append]
      · simp [Operation.isEnter, Operation.isExit]
        omega
    | exit =>
      have hopened : opened ≠ [] := by
        rintro rfl
        simp [Operation.isEnter, Operation.isExit] at hall hlength
        omega
      obtain ⟨next, opened, rfl⟩ := List.exists_cons_of_ne_nil hopened
      refine ⟨opened, ?_, ?_⟩
      · show (scopes.performAll operations).exit.outer = _
        unfold Scopes.exit
        rw [houter]
        rfl
      · simp [Operation.isEnter, Operation.isExit] at hlength ⊢
        omega
    | declare declaration =>
      refine ⟨opened, ?_, ?_⟩
      · rw [Scopes.perform_declare]
        exact houter
      · simpa [Operation.isEnter, Operation.isExit] using hlength

/-- A scope that is closed again leaves no trace. -/
theorem Balanced.performAll {operations : List Operation} (h : Balanced operations)
    (scopes : Scopes) : scopes.performAll (.enter :: (operations ++ [.exit])) = scopes := by
  have hsplit : scopes.performAll (.enter :: (operations ++ [.exit])) =
      (scopes.enter.performAll operations).exit :=
    Scopes.performAll_concat scopes.enter operations .exit
  obtain ⟨opened, houter, hlength⟩ := scopes.enter.outer_performAll operations h.covered
  obtain rfl : opened = [] := List.eq_nil_of_length_eq_zero (by have := h.even; omega)
  rw [hsplit, Scopes.exit, houter]
  rfl

/-! ## Scopes and their histories -/

theorem Scopes.shadowed?_eq_some {scopes : Scopes} {text : String} {span : Span} :
    scopes.shadowed? text = some span ↔
      ∃ declaration, scopes.around? text = some declaration ∧ declaration.name.span = span :=
  Option.map_eq_some_iff

/-- What a declaration hides is what is found when the current scope is closed. -/
theorem Scopes.shadowed?_eq_exit {scopes : Scopes} (h : 1 < scopes.depth) (text : String) :
    scopes.shadowed? text = (scopes.exit.find? text).map (·.name.span) := by
  obtain ⟨current, outer⟩ := scopes
  cases outer with
  | nil => exact absurd h (Nat.lt_irrefl 1)
  | cons next outer => rfl

/-- The scopes after a history, told by the history.

There is always a scope, and the outermost one cannot be closed.  A lookup finds the first
declaration of the name in the innermost open scope that has one, and that declaration was
accepted.  A declaration is refused exactly when the current scope declares the name; the
place of the first declaration is given then, and nothing changes.  What a declaration
hides is what the lookup finds without the current scope.  Operations that close what they
open leave no trace inside a scope of their own. -/
theorem scopes_show_history (history : History) :
    let scopes := history.after
    (1 ≤ scopes.depth ∧ scopes.depth = history.depth) ∧
    (scopes.depth = 1 → scopes.exit = scopes) ∧
    (∀ text declaration, scopes.find? text = some declaration ↔
      ∃ i, history.Innermost history.depth text i declaration ∧
        (History.after (history.take i)).declare declaration.name declaration.symbol =
          .ok (History.after (history.take (i + 1)))) ∧
    (∀ name symbol, (∃ duplicate, scopes.declare name symbol = .error duplicate) ↔
      ∃ i declaration, history.OpenAt history.depth i declaration ∧
        declaration.name.text = name.text) ∧
    (∀ name symbol duplicate, scopes.declare name symbol = .error duplicate →
      (∃ i first, history.FirstAt history.depth name.text i first ∧
        duplicate = ⟨name.text, first.name.span⟩) ∧
      scopes.perform (.declare ⟨name, symbol⟩) = scopes) ∧
    (∀ text span, scopes.shadowed? text = some span ↔
      ∃ i declaration, history.Innermost (history.depth - 1) text i declaration ∧
        declaration.name.span = span) ∧
    (∀ text, 1 < scopes.depth →
      scopes.shadowed? text = (scopes.exit.find? text).map (·.name.span)) ∧
    ∀ operations, Balanced operations →
      scopes.performAll (.enter :: (operations ++ [.exit])) = scopes := by
  intro scopes
  have hdepth : scopes.depth = history.depth := (History.shownBy_after history).2
  refine ⟨⟨Nat.succ_pos _, hdepth⟩, ?_, ?_, ?_, ?_, ?_, ?_, ?_⟩
  · intro hone
    have houter : scopes.outer = [] := List.eq_nil_of_length_eq_zero (Nat.succ.inj hone)
    rw [Scopes.exit, houter]
  · intro text declaration
    rw [History.find?_after]
    refine exists_congr fun i => ⟨fun h => ⟨h, ?_⟩, And.left⟩
    obtain ⟨level, -, hfirst, -⟩ := h
    exact hfirst.accepted
  · intro name symbol
    constructor
    · rintro ⟨duplicate, h⟩
      obtain ⟨i, first, hfirst, -⟩ := History.declare_after_eq_error.1 h
      exact ⟨i, first, hfirst.openAt, hfirst.named⟩
    · rintro ⟨i, declaration, hopen, hnamed⟩
      obtain ⟨j, first, hfirst⟩ := hopen.exists_first hnamed
      exact ⟨_, History.declare_after_eq_error.2 ⟨j, first, hfirst, rfl⟩⟩
  · intro name symbol duplicate h
    refine ⟨History.declare_after_eq_error.1 h, ?_⟩
    show (declareName scopes name symbol).scopes = scopes
    rw [declareName, h]
  · intro text span
    rw [Scopes.shadowed?_eq_some]
    constructor
    · rintro ⟨declaration, haround, hspan⟩
      obtain ⟨i, hi⟩ := History.around?_after.1 haround
      exact ⟨i, declaration, hi, hspan⟩
    · rintro ⟨i, declaration, hi, hspan⟩
      exact ⟨declaration, History.around?_after.2 ⟨i, hi⟩, hspan⟩
  · intro text hdeep
    exact Scopes.shadowed?_eq_exit hdeep text
  · intro operations hbalanced
    exact hbalanced.performAll scopes

end TagLang
