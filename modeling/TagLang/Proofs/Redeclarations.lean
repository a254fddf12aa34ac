import Mathlib.Algebra.GroupWithZero.Nat
import Mathlib.Data.Finset.Card
import TagLang.Proofs.Notices
import TagLang.Proofs.Slots

/-!
# Reports on declarations

A declaration is reported when its name is taken: as a duplicate if the same block has it, and
as a warning if a block around has it.  This module says exactly when, with which places, and
how often.

* `Visit.filter_analysis` singles out these reports among all findings of a visit: they are
  those of `declareName`, and no expression makes one.
* `DeclarationReports` says what is reported on one declaration, in terms of the slots of the
  program.  `declareName_reports` proves it where the scopes show what stands before.
* `Program.duplicateCount_add` counts: a duplicate is reported for each declaration that brings
  no new name to its block.
-/

namespace TagLang

/-! ## The findings on declarations -/

/-- The codes of the reports on a declaration whose name is taken. -/
def Code.isRedeclaration (code : Code) : Bool :=
  code = .duplicateDeclaration ∨ code = .shadowedDeclaration

/-- The finding is that the name of a declaration is taken. -/
def Finding.isRedeclaration (finding : Finding) : Bool :=
  finding.code.isRedeclaration

theorem Expr.Makes.isRedeclaration_eq_false {node : Expr} {argument : Option Nat}
    {finding : Finding} (h : node.Makes argument finding) : finding.isRedeclaration = false := by
  cases h <;> rfl

theorem Expr.filter_resolve (env : Env) (e : Expr) (expected : Option Tag) (depth : Nat)
    (flag : Bool) :
    (e.resolve env expected depth flag).findings.filter Finding.isRedeclaration = [] := by
  rw [← Expr.findings_notices, List.filter_eq_nil_iff]
  intro finding hfinding
  obtain ⟨notice, hnotice, rfl⟩ := List.mem_map.1 hfinding
  obtain ⟨node, -, -, hmakes⟩ := e.fits_notices env expected depth flag notice hnotice
  simp [hmakes.isRedeclaration_eq_false]

theorem Ascription.filter_resolve (ascription : Ascription) :
    ascription.resolve.findings.filter Finding.isRedeclaration = [] := by
  unfold Ascription.resolve
  split <;> rfl

theorem VarDecl.filter_checkInitializer (env : Env) (declaration : VarDecl) (declared : Tag) :
    (declaration.checkInitializer env declared).filter Finding.isRedeclaration = [] := by
  unfold VarDecl.checkInitializer
  split
  · rfl
  · rw [List.filter_append, Expr.filter_resolve]
    split <;> rfl

/-- A declaration is reported if its name is found in the current scope, and otherwise if it is
found in a scope around. -/
theorem declareName_findings_eq (scopes : Scopes) (name : Name) (symbol : Symbol) :
    (declareName scopes name symbol).findings =
      (((scopes.current.find? name.text).map fun first =>
          Finding.duplicate name first.name.span).or
        ((scopes.around? name.text).map fun outer =>
          Finding.shadowed name outer.name.span)).toList := by
  unfold declareName Scopes.declare
  cases hfind : scopes.current.find? name.text with
  | some first => rfl
  | none =>
    show _ = ((scopes.around? name.text).map _).toList
    unfold Scopes.shadowed? Scopes.around?
    cases scopes.outer.findSome? (·.find? name.text) <;> rfl

theorem declareName_filter (scopes : Scopes) (name : Name) (symbol : Symbol) :
    (declareName scopes name symbol).findings.filter Finding.isRedeclaration =
      (declareName scopes name symbol).findings := by
  unfold declareName
  split
  · rfl
  · split <;> rfl

/-- The reports on declarations among the findings of a visit are those of the declaration that
the item makes. -/
theorem Visit.filter_analysis (limit : Nat) (visit : Visit) :
    (visit.analysis limit).findings.filter Finding.isRedeclaration =
      visit.item.declared?.elim [] fun declared =>
        (declareName visit.scopes declared.name declared.symbol).findings := by
  obtain ⟨item, scopes⟩ := visit
  cases item with
  | var declaration =>
    simp only [Visit.analysis, Item.analyze, VarDecl.analyze, List.filter_append,
      Ascription.filter_resolve, VarDecl.filter_checkInitializer, declareName_filter]
    rfl
  | fn declaration =>
    simp only [Visit.analysis, Item.analyze, FnDecl.analyze, List.filter_append,
      Ascription.filter_resolve, List.filter_flatMap, declareName_filter]
    simp [Item.declared?, FnDecl.declared]
  | block items span => rfl
  | expr e =>
    simp only [Visit.analysis, Item.analyze]
    exact Expr.filter_resolve _ e _ _ _

/-! ## What is reported on a declaration -/

/-- What the diagnostics of an item say about the name that it declares. -/
structure DeclarationReports (items : List Item) (slot : Slot) (declared : Declaration)
    (diagnostics : List Diagnostic) : Prop where
  /-- A duplicate is reported exactly when the block has the name before. -/
  duplicate_iff : (∃ diagnostic ∈ diagnostics, diagnostic.code = .duplicateDeclaration) ↔
    DeclaresBefore items slot declared.name.text
  /-- It points to the name and to the first declaration of it in the block. -/
  duplicate_labels : ∀ diagnostic ∈ diagnostics, diagnostic.code = .duplicateDeclaration →
    ∃ first, FirstBefore items slot declared.name.text first ∧
      diagnostic.primary.span = declared.name.span ∧
      diagnostic.secondary.map (·.span) = [first.name.span]
  /-- Shadowing is reported exactly when only a block around has the name before. -/
  shadowed_iff : (∃ diagnostic ∈ diagnostics, diagnostic.code = .shadowedDeclaration) ↔
    ¬DeclaresBefore items slot declared.name.text ∧
      ∃ outer : Slot, outer.Encloses slot ∧ DeclaresBefore items outer declared.name.text
  /-- It points to the name and to the first declaration of it in the innermost such block. -/
  shadowed_labels : ∀ diagnostic ∈ diagnostics, diagnostic.code = .shadowedDeclaration →
    ∃ outer first, InnermostAround items slot declared.name.text outer ∧
      FirstBefore items outer declared.name.text first ∧
      diagnostic.primary.span = declared.name.span ∧
      diagnostic.secondary.map (·.span) = [first.name.span]
  /-- There is at most one of these reports. -/
  once : diagnostics.countP (·.code.isRedeclaration) ≤ 1

section

variable {items : List Item} {slot : Slot} {declared : Declaration}

/-- Other diagnostics play no part. -/
theorem DeclarationReports.of_filter {diagnostics : List Diagnostic}
    (h : DeclarationReports items slot declared (diagnostics.filter (·.code.isRedeclaration))) :
    DeclarationReports items slot declared diagnostics := by
  have hmem : ∀ {code : Code} {diagnostic : Diagnostic}, code.isRedeclaration = true →
      diagnostic ∈ diagnostics → diagnostic.code = code →
      diagnostic ∈ diagnostics.filter (·.code.isRedeclaration) := by
    rintro code diagnostic hcode hdiagnostic rfl
    exact List.mem_filter.2 ⟨hdiagnostic, hcode⟩
  have hexists : ∀ {code : Code}, code.isRedeclaration = true →
      ((∃ diagnostic ∈ diagnostics, diagnostic.code = code) ↔
        ∃ diagnostic ∈ diagnostics.filter (·.code.isRedeclaration), diagnostic.code = code) := by
    intro code hcode
    constructor
    · rintro ⟨diagnostic, hdiagnostic, heq⟩
      exact ⟨diagnostic, hmem hcode hdiagnostic heq, heq⟩
    · rintro ⟨diagnostic, hdiagnostic, heq⟩
      exact ⟨diagnostic, List.mem_of_mem_filter hdiagnostic, heq⟩
  exact {
    duplicate_iff := (hexists rfl).trans h.duplicate_iff
    duplicate_labels := fun diagnostic hdiagnostic hcode =>
      h.duplicate_labels diagnostic (hmem rfl hdiagnostic hcode) hcode
    shadowed_iff := (hexists rfl).trans h.shadowed_iff
    shadowed_labels := fun diagnostic hdiagnostic hcode =>
      h.shadowed_labels diagnostic (hmem rfl hdiagnostic hcode) hcode
    once := by
      have honce := h.once
      simpa only [List.countP_filter, Bool.and_self] using honce }

/-- The reports of a declaration in scopes that show what stands before the slot.  The three
cases are those of `declareName`. -/
theorem declareName_reports {scopes : Scopes} (h : scopes.ShowsAt items slot)
    (declared : Declaration) :
    DeclarationReports items slot declared
      ((declareName scopes declared.name declared.symbol).findings.map Finding.diagnostic) := by
  rw [declareName_findings_eq, h.current, h.around?]
  cases hbefore : declaredBefore? items slot declared.name.text with
  | some first =>
    have hfirst := firstBefore_of_eq_some hbefore
    exact {
      duplicate_iff := by simpa [Finding.diagnostic, Finding.code] using hfirst.declaresBefore
      duplicate_labels := by simpa [Finding.diagnostic, Finding.primary, Finding.secondary]
        using fun _ => ⟨first, hfirst, rfl⟩
      shadowed_iff := by simp [Finding.diagnostic, Finding.code, hfirst.declaresBefore]
      shadowed_labels := by simp [Finding.diagnostic, Finding.code]
      once := List.countP_le_length.trans (by simp) }
  | none =>
    have hfresh := not_declaresBefore hbefore
    cases haround : declaredAround? items slot declared.name.text with
    | some first =>
      obtain ⟨outer, houter, hfirst⟩ := innermostAround_of_eq_some haround
      exact {
        duplicate_iff := by simpa [Finding.diagnostic, Finding.code] using hfresh
        duplicate_labels := by simp [Finding.diagnostic, Finding.code]
        shadowed_iff := by simpa [Finding.diagnostic, Finding.code, hfresh]
          using ⟨outer, houter.encloses, houter.declares⟩
        shadowed_labels := by simpa [Finding.diagnostic, Finding.primary, Finding.secondary]
          using fun _ => ⟨outer, houter, first, hfirst, rfl⟩
        once := List.countP_le_length.trans (by simp) }
    | none =>
      exact {
        duplicate_iff := by simpa using hfresh
        duplicate_labels := by simp
        shadowed_iff := by simpa using fun _ => not_declaresBefore_around haround
        shadowed_labels := by simp
        once := List.countP_le_length.trans (by simp) }

end

/-- The diagnostics of a visit, apart from those that lie inside a block. -/
def Visit.diagnostics (limit : Nat) (visit : Visit) : List Diagnostic :=
  (visit.analysis limit).findings.map Finding.diagnostic

/-- The reports on declarations among the diagnostics of a visit. -/
theorem Visit.filter_diagnostics (limit : Nat) (visit : Visit) :
    (visit.diagnostics limit).filter (·.code.isRedeclaration) =
      visit.item.declared?.elim [] fun declared =>
        (declareName visit.scopes declared.name declared.symbol).findings.map
          Finding.diagnostic := by
  have hfilter := visit.filter_analysis limit
  rw [Visit.diagnostics, List.filter_map]
  show ((visit.analysis limit).findings.filter Finding.isRedeclaration).map _ = _
  rw [hfilter]
  cases visit.item.declared? <;> rfl

namespace Visit.StandsAt

variable {items : List Item} {placed : Slot × Item} {visit : Visit}

theorem declarationReports (h : visit.StandsAt items placed) (limit : Nat)
    {declared : Declaration} (hdeclared : placed.2.declared? = some declared) :
    DeclarationReports items placed.1 declared (visit.diagnostics limit) := by
  refine .of_filter ?_
  rw [Visit.filter_diagnostics, h.item_eq, hdeclared]
  exact declareName_reports h.shows declared

/-- An item that declares nothing has no reports on declarations. -/
theorem no_reports (h : visit.StandsAt items placed) (limit : Nat)
    (hdeclared : placed.2.declared? = none) :
    ∀ diagnostic ∈ visit.diagnostics limit, diagnostic.code.isRedeclaration = false := by
  have hfilter := visit.filter_diagnostics limit
  rw [h.item_eq, hdeclared] at hfilter
  intro diagnostic hdiagnostic
  simpa using List.filter_eq_nil_iff.1 hfilter diagnostic hdiagnostic

end Visit.StandsAt

/-! ## How many duplicates there are -/

/-- The name that an item declares, with the block in which it does. -/
def declaredName? (placed : Slot × Item) : Option (List Nat × String) :=
  placed.2.declared?.map fun declared => (placed.1.block, declared.name.text)

/-- The names that a program declares with their blocks, one for each declaration. -/
def Program.declaredNames (program : Program) : List (List Nat × String) :=
  program.numbered.filterMap declaredName?

/-- How many duplicates are reported among some diagnostics. -/
def duplicateCount (diagnostics : List Diagnostic) : Nat :=
  diagnostics.countP fun diagnostic => diagnostic.code = .duplicateDeclaration

theorem DeclarationReports.duplicateCount_eq {items : List Item} {slot : Slot}
    {declared : Declaration} {diagnostics : List Diagnostic}
    (h : DeclarationReports items slot declared diagnostics) :
    duplicateCount diagnostics =
      if DeclaresBefore items slot declared.name.text then 1 else 0 := by
  have hle : duplicateCount diagnostics ≤ 1 := by
    refine (List.countP_mono_left fun diagnostic _ hcode => ?_).trans h.once
    simpa [Code.isRedeclaration] using .inl (by simpa using hcode)
  have hpos : 0 < duplicateCount diagnostics ↔ DeclaresBefore items slot declared.name.text := by
    rw [← h.duplicate_iff, duplicateCount, List.countP_pos_iff]
    simp
  split
  · rename_i hdeclares
    have := hpos.2 hdeclares
    omega
  · rename_i hfresh
    exact Nat.eq_zero_of_not_pos fun hcount => hfresh (hpos.1 hcount)

/-- One for an item whose name is declared before it in its block, and otherwise nothing. -/
def repeatCount (items : List Item) (placed : Slot × Item) : Nat :=
  placed.2.declared?.elim 0 fun declared =>
    if DeclaresBefore items placed.1 declared.name.text then 1 else 0

theorem Visit.StandsAt.duplicateCount_eq {items : List Item} {placed : Slot × Item} {visit : Visit}
    (h : visit.StandsAt items placed) (limit : Nat) :
    duplicateCount (visit.diagnostics limit) = repeatCount items placed := by
  unfold repeatCount
  cases hdeclared : placed.2.declared? with
  | none =>
    have hnone := h.no_reports limit hdeclared
    refine List.countP_eq_zero.2 fun diagnostic hdiagnostic hcode => ?_
    have hother := hnone diagnostic hdiagnostic
    rw [of_decide_eq_true hcode] at hother
    contradiction
  | some declared => exact (h.declarationReports limit hdeclared).duplicateCount_eq

/-- A name is declared before a slot exactly when it is among the names of the items that are
numbered before it. -/
theorem Program.mem_declaredNames_before {program : Program} {before after : List (Slot × Item)}
    {slot : Slot} {item : Item} (hsplit : program.numbered = before ++ (slot, item) :: after)
    (text : String) :
    (slot.block, text) ∈ before.filterMap declaredName? ↔
      DeclaresBefore program.items slot text := by
  have hordered := numberItems_pairwise program.items .first
  rw [← Program.numbered, hsplit, List.pairwise_append, List.pairwise_cons] at hordered
  obtain ⟨-, ⟨hafter, -⟩, hbefore⟩ := hordered
  rw [List.mem_filterMap]
  constructor
  · rintro ⟨⟨earlier, found⟩, hmem, hname⟩
    obtain ⟨declared, hdeclared, heq⟩ := Option.map_eq_some_iff.1 hname
    obtain ⟨hblock, htext⟩ := Prod.mk.inj heq
    have hlt := hbefore _ hmem (slot, item) List.mem_cons_self hblock
    have hitem : itemAt? program.items earlier = some found :=
      program.mem_numbered.1 (by rw [hsplit]; exact List.mem_append_left _ hmem)
    refine ⟨earlier.index, hlt, declared, ?_, htext⟩
    rw [← hblock]
    show (itemAt? program.items earlier).bind Item.declared? = some declared
    rw [hitem]
    exact hdeclared
  · rintro ⟨index, hlt, declared, hdeclared, htext⟩
    obtain ⟨found, hfound, hdeclared⟩ := Option.bind_eq_some_iff.1 hdeclared
    refine ⟨(⟨slot.block, index⟩, found), ?_, ?_⟩
    · have hmem := program.mem_numbered.2 hfound
      rw [hsplit, List.mem_append, List.mem_cons] at hmem
      rcases hmem with hmem | heq | hmem
      · exact hmem
      · have hindex : index = slot.index := congrArg (·.1.index) heq
        omega
      · exact absurd (hafter _ hmem rfl) (Nat.lt_asymm hlt)
    · simp [declaredName?, hdeclared, htext]

theorem card_toFinset_concat {κ : Type} [DecidableEq κ] (keys : List κ) (key : κ) :
    (if key ∈ keys then 1 else 0) + (keys ++ [key]).toFinset.card = keys.toFinset.card + 1 := by
  rw [List.toFinset_append]
  split
  · rename_i hmem
    rw [Finset.union_eq_left.2 (by simpa using hmem)]
    omega
  · rename_i hnew
    rw [Finset.card_union_of_disjoint (by simpa using hnew)]
    simp

/-- Elements that count one if their key has occurred before, and nothing otherwise, count the
keys that are not new. -/
theorem sum_repeated {α κ : Type} [DecidableEq κ] (key? : α → Option κ) (count : α → Nat)
    (list : List α)
    (h : ∀ before a after, list = before ++ a :: after →
      count a = (key? a).elim 0 fun key => if key ∈ before.filterMap key? then 1 else 0) :
    (list.map count).sum + (list.filterMap key?).toFinset.card =
      (list.filterMap key?).length := by
  induction list using List.reverseRecOn with
  | nil => rfl
  | append_singleton list a ih =>
    have hlist := ih fun before b after hsplit => h before b (after ++ [a]) (by simp [hsplit])
    have ha := h list a [] rfl
    rw [List.map_append, List.sum_append, List.filterMap_append, List.length_append]
    cases hkey : key? a with
    | none =>
      simp only [hkey, Option.elim_none] at ha
      simpa [hkey, ha] using hlist
    | some key =>
      simp only [hkey, Option.elim_some] at ha
      have hcard := card_toFinset_concat (list.filterMap key?) key
      simp only [List.filterMap_cons, hkey, List.filterMap_nil, List.map_cons, List.map_nil,
        List.sum_singleton, List.length_singleton]
      omega

/-- The duplicates are the declarations that bring no new name to their block. -/
theorem Program.duplicateCount_add (program : Program) (limit : Nat) :
    duplicateCount ((program.visits limit).flatMap (Visit.diagnostics limit)) +
        program.declaredNames.toFinset.card =
      program.declaredNames.length := by
  have hcounts : program.numbered.map (repeatCount program.items) =
      (program.visits limit).map fun visit => duplicateCount (visit.diagnostics limit) := by
    rw [← List.forall₂_eq_eq_eq, List.forall₂_map_left_iff, List.forall₂_map_right_iff]
    exact (program.visits_numbered limit).imp fun _ _ hstands =>
      (hstands.duplicateCount_eq limit).symm
  have hsum : duplicateCount ((program.visits limit).flatMap (Visit.diagnostics limit)) =
      (program.numbered.map (repeatCount program.items)).sum := by
    rw [hcounts, duplicateCount, List.countP_flatMap]
    rfl
  rw [hsum]
  refine sum_repeated declaredName? _ program.numbered fun before placed after hsplit => ?_
  obtain ⟨slot, item⟩ := placed
  cases hdeclared : item.declared? with
  | none => simp [repeatCount, declaredName?, hdeclared]
  | some declared =>
    have hnames := Program.mem_declaredNames_before hsplit declared.name.text
    simp only [repeatCount, declaredName?, hdeclared, Option.map_some, Option.elim_some, hnames]

/-! ## Programs -/

/-- Reports on declarations are exact, for every program in a session where nothing has been
declared.

The analysis goes through all items in the order of the text, and what it adds to the log are
their diagnostics.  A duplicate is reported exactly on the declarations whose name is declared
before in the same block, and shadowing on the others whose name is declared in a block around,
before the block that leads to them.  Both point to the name, and to the first declaration of
it in that block; where several blocks around have the name, it is the innermost.  No item has
two such reports, and one without a declaration has none.  So the number of duplicates is that
of the declarations less that of the different names in the blocks. -/
theorem analyze_reports_redeclarations (limit : Nat) (log : Log) (program : Program) :
    let visits := program.visits limit
    let reported := visits.flatMap (Visit.diagnostics limit)
    ((Session.start limit log).analyze program).2.log = log.append reported ∧
    (∀ slot item, (slot, item) ∈ program.numbered ↔ itemAt? program.items slot = some item) ∧
    program.numbered.Pairwise (fun first second => first.1.Ordered second.1) ∧
    List.Forall₂ (fun placed visit => visit.item = placed.2 ∧
      (∀ declared, placed.2.declared? = some declared →
        DeclarationReports program.items placed.1 declared (visit.diagnostics limit)) ∧
      (placed.2.declared? = none →
        ∀ diagnostic ∈ visit.diagnostics limit, diagnostic.code ≠ .duplicateDeclaration ∧
          diagnostic.code ≠ .shadowedDeclaration)) program.numbered visits ∧
    duplicateCount reported + program.declaredNames.toFinset.card =
      program.declaredNames.length := by
  intro visits reported
  refine ⟨?_, fun slot item => program.mem_numbered, numberItems_pairwise program.items .first, ?_,
    program.duplicateCount_add limit⟩
  · show log.record (analyzeItems ⟨.empty, limit⟩ program.items).findings = _
    rw [(analyzeItems_visits ⟨.empty, limit⟩ program.items).1, Log.record, List.map_flatMap]
    rfl
  · refine (program.visits_numbered limit).imp fun placed visit hstands =>
      ⟨hstands.item_eq, fun declared => hstands.declarationReports limit, fun hnone => ?_⟩
    intro diagnostic hdiagnostic
    simpa [Code.isRedeclaration] using hstands.no_reports limit hnone diagnostic hdiagnostic

end TagLang
