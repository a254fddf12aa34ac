import Mathlib.Data.List.Forall2
import TagLang.Proofs.Joins
import TagLang.Proofs.Scoping
import TagLang.Proofs.Stages
import TagLang.Proofs.Typing

/-!
# Well-typed programs

A declarative judgment for programs, and how far the analysis agrees with it.

`ParametersDenote`, `ItemTyped` and `ItemsTyped` say which programs are well typed and which
tags their expression statements have.  They speak of a `View`, which is what a point of a
program sees: there is no stack, no `undefined`, and nothing is reported.  An ascription
stands for the set of its members (`Ascription.Denotes`).

* `Item.analyze_sound`: items without errors are well typed.
* `ItemTyped.analyze_eq`: well-typed items are analysed without errors, and the tags
  of the derivation are the ones recorded, as long as no ascription is crowded.
* `analyze_noError_iff_wellTyped_uncrowded` is the result for programs.  Crowded ascriptions
  are what the verdict and the judgment differ in: `wellTyped_rejected_late_any`.

The invariant that carries both is `View.Valued`: as long as no error was reported,
the scopes hold tags of values only, and so `undefined` cannot hide an error.
-/

namespace TagLang

/-! ## The judgment -/

/-- What a declaration tells of its parameters: all tags if each parameter has an
ascription, and else how many there are.  Every ascription has to have a tag. -/
inductive ParametersDenote : List Parameter → Parameters → Prop where
  | tagged {parameters : List Parameter} {tags : List Tag} :
      List.Forall₂ (fun parameter tag =>
        ∃ ascription, parameter.ascription = some ascription ∧ ascription.Denotes tag)
        parameters tags →
      ParametersDenote parameters (.tagged tags)
  | counted {parameters : List Parameter} :
      (∃ parameter ∈ parameters, parameter.ascription = none) →
      (∀ parameter ∈ parameters, ∀ ascription, parameter.ascription = some ascription →
        ∃ tag, ascription.Denotes tag) →
      ParametersDenote parameters (.counted parameters.length)

/-- What a point of a program sees: what each name stands for, and the names that
the block around the point has declared so far. -/
structure View where
  visible : String → Option Symbol
  declared : List String

namespace View

/-- Before the first item of a program. -/
def start : View :=
  ⟨fun _ => none, []⟩

/-- Before the first item of a block. -/
def inside (view : View) : View :=
  ⟨view.visible, []⟩

/-- After the declaration of a name. -/
def declare (view : View) (text : String) (symbol : Symbol) : View :=
  ⟨fun other => if other = text then some symbol else view.visible other,
    text :: view.declared⟩

end View

/-- A missing initializer fits every tag.  Another one is typed under the declared
tag, compatible with it, and not too high. -/
def InitializerFits (limit : Nat) (view : View) (declared : Tag) (initializer : Option Expr) :
    Prop :=
  ∀ e, initializer = some e →
    e.height ≤ limit ∧
      ∃ tag, HasTag view.visible (some declared) e tag ∧ declared.accepts tag = true

mutual

/-- The typing rules of items.  An item leads from one view to another, and its
expression statements have the listed tags. -/
inductive ItemTyped (limit : Nat) : View → Item → View → List Statement → Prop where
  | var {view : View} {declaration : VarDecl} {tag : Tag} :
      declaration.ascription.Denotes tag →
      InitializerFits limit view tag declaration.initializer →
      declaration.name.text ∉ view.declared →
      ItemTyped limit view (.var declaration)
        (view.declare declaration.name.text (.value tag)) []
  | fn {view : View} {declaration : FnDecl} {parameters : Parameters} {result : Tag} :
      declaration.result.Denotes result →
      ParametersDenote declaration.parameters parameters →
      declaration.name.text ∉ view.declared →
      ItemTyped limit view (.fn declaration)
        (view.declare declaration.name.text (.function ⟨parameters, result⟩)) []
  | block {view after : View} {items : List Item} {span : Span} {statements : List Statement} :
      ItemsTyped limit view.inside items after statements →
      ItemTyped limit view (.block items span) view statements
  | expr {view : View} {e : Expr} {tag : Tag} :
      e.height ≤ limit →
      HasTag view.visible none e tag →
      ItemTyped limit view (.expr e) view [⟨e.span, tag⟩]

/-- Items are typed one after the other. -/
inductive ItemsTyped (limit : Nat) : View → List Item → View → List Statement → Prop where
  | nil {view : View} : ItemsTyped limit view [] view []
  | cons {view between after : View} {item : Item} {rest : List Item}
      {first others : List Statement} :
      ItemTyped limit view item between first →
      ItemsTyped limit between rest after others →
      ItemsTyped limit view (item :: rest) after (first ++ others)

end

/-- A program is well typed with the listed tags of its expression statements. -/
def Program.WellTyped (limit : Nat) (program : Program) (statements : List Statement) : Prop :=
  ∃ after, ItemsTyped limit .start program.items after statements

/-! ## Ascriptions -/

mutual

/-- The ascriptions of an item and of the items in it, in source order. -/
def Item.ascriptions : Item → List Ascription
  | .var declaration => [declaration.ascription]
  | .fn declaration => declaration.result :: declaration.ascriptions
  | .block items _ => ascriptionsOfEach items
  | .expr _ => []

/-- The ascriptions of some items. -/
def ascriptionsOfEach : List Item → List Ascription
  | [] => []
  | item :: rest => item.ascriptions ++ ascriptionsOfEach rest

end

/-- The ascriptions of a program. -/
def Program.ascriptions (program : Program) : List Ascription :=
  ascriptionsOfEach program.items

/-- None of the ascriptions is crowded. -/
def Uncrowded (ascriptions : List Ascription) : Prop :=
  ∀ ascription ∈ ascriptions, ¬Crowded ascription.members

theorem uncrowded_append {first second : List Ascription} :
    Uncrowded (first ++ second) ↔ Uncrowded first ∧ Uncrowded second :=
  List.forall_mem_append

theorem uncrowded_cons {first : Ascription} {rest : List Ascription} :
    Uncrowded (first :: rest) ↔ ¬Crowded first.members ∧ Uncrowded rest :=
  List.forall_mem_cons

/-- An ascription without an error denotes its tag. -/
theorem Ascription.resolve_sound {ascription : Ascription}
    (h : NoError ascription.resolve.findings) : ascription.Denotes ascription.resolve.tag := by
  rw [Ascription.resolve] at h ⊢
  cases htag : ascription.tag? with
  | none => simp [htag, noError_singleton, Finding.code, Code.severity] at h
  | some tag => exact ((ascription.tag?_eq_some_iff tag).1 htag).1

mutual

/-- What is found about an ascription of an item is found about the item. -/
theorem Item.resolve_subset_findings :
    ∀ (item : Item) (env : Env), ∀ ascription ∈ item.ascriptions,
      ascription.resolve.findings ⊆ (item.analyze env).findings
  | .var declaration, env, ascription, hmem => by
    rw [Item.ascriptions, List.mem_singleton] at hmem
    rw [hmem, Item.analyze, VarDecl.analyze]
    dsimp only
    rw [List.append_assoc]
    exact List.subset_append_left _ _
  | .fn declaration, env, ascription, hmem => by
    rw [Item.analyze, FnDecl.analyze]
    dsimp only
    rw [List.append_assoc]
    rw [Item.ascriptions] at hmem
    rcases List.mem_cons.1 hmem with rfl | hparameter
    · exact List.subset_append_left _ _
    · intro finding hfinding
      refine List.mem_append_right _ (List.mem_append_left _ ?_)
      exact List.mem_flatMap.2 ⟨ascription, hparameter, hfinding⟩
  | .block items span, env, ascription, hmem => by
    rw [Item.ascriptions] at hmem
    rw [Item.analyze]
    exact resolve_subset_findingsOfEach items _ ascription hmem
  | .expr e, env, ascription, hmem => by
    rw [Item.ascriptions] at hmem
    contradiction

/-- The same for some items. -/
theorem resolve_subset_findingsOfEach :
    ∀ (items : List Item) (env : Env), ∀ ascription ∈ ascriptionsOfEach items,
      ascription.resolve.findings ⊆ (analyzeItems env items).findings
  | [], env, ascription, hmem => by
    rw [ascriptionsOfEach] at hmem
    contradiction
  | item :: rest, env, ascription, hmem => by
    rw [ascriptionsOfEach] at hmem
    rw [analyzeItems]
    rcases List.mem_append.1 hmem with hmem | hmem
    · exact List.subset_append_of_subset_left _
        (item.resolve_subset_findings env ascription hmem)
    · exact List.subset_append_of_subset_right _
        (resolve_subset_findingsOfEach rest _ ascription hmem)

end

/-- A crowded ascription is reported. -/
theorem mem_findings_of_crowded {items : List Item} (env : Env) {ascription : Ascription}
    (hmem : ascription ∈ ascriptionsOfEach items) (h : Crowded ascription.members) :
    .unsupportedUnion ascription.span ∈ (analyzeItems env items).findings := by
  apply resolve_subset_findingsOfEach items env ascription hmem
  rw [Ascription.resolve_of_crowded h]
  exact List.mem_singleton_self _

/-- Items without errors have no crowded ascriptions. -/
theorem uncrowded_of_noError {env : Env} {items : List Item}
    (h : NoError (analyzeItems env items).findings) : Uncrowded (ascriptionsOfEach items) := by
  intro ascription hmem hcrowded
  have herror := h _ (mem_findings_of_crowded env hmem hcrowded)
  contradiction

/-! ## Parameters -/

theorem FnDecl.mem_ascriptions {declaration : FnDecl} {parameter : Parameter}
    {ascription : Ascription} (hmem : parameter ∈ declaration.parameters)
    (h : parameter.ascription = some ascription) : ascription ∈ declaration.ascriptions :=
  List.mem_filterMap.2 ⟨parameter, hmem, h⟩

/-- Parameters that all have an ascription with a tag, listed with these tags. -/
theorem FnDecl.forall₂_resolve {parameters : List Parameter}
    (hall : ∀ parameter ∈ parameters, parameter.ascription.isSome = true)
    (hdenotes : ∀ parameter ∈ parameters, ∀ ascription,
      parameter.ascription = some ascription → ascription.Denotes ascription.resolve.tag) :
    List.Forall₂ (fun parameter tag =>
        ∃ ascription, parameter.ascription = some ascription ∧ ascription.Denotes tag)
      parameters ((parameters.filterMap (·.ascription)).map (·.resolve.tag)) := by
  induction parameters with
  | nil => exact .nil
  | cons parameter rest ih =>
    obtain ⟨ascription, hascription⟩ := Option.isSome_iff_exists.1 (hall parameter (by simp))
    rw [List.filterMap_cons, hascription, List.map_cons]
    refine .cons ⟨ascription, hascription, ?_⟩ (ih ?_ ?_)
    · exact hdenotes parameter (by simp) ascription hascription
    · exact fun other hother => hall other (by simp [hother])
    · exact fun other hother => hdenotes other (by simp [hother])

theorem FnDecl.knownParameters_sound {declaration : FnDecl}
    (h : NoError (declaration.ascriptions.flatMap (·.resolve.findings))) :
    ParametersDenote declaration.parameters declaration.knownParameters := by
  have hdenotes : ∀ parameter ∈ declaration.parameters, ∀ ascription,
      parameter.ascription = some ascription → ascription.Denotes ascription.resolve.tag := by
    intro parameter hmem ascription hascription
    refine Ascription.resolve_sound fun finding hfinding => h finding ?_
    exact List.mem_flatMap.2 ⟨ascription, mem_ascriptions hmem hascription, hfinding⟩
  rw [FnDecl.knownParameters]
  split
  · rename_i hall
    exact .tagged (forall₂_resolve (List.all_eq_true.1 hall) hdenotes)
  · rename_i hall
    refine .counted ?_ fun parameter hmem ascription hascription =>
      ⟨_, hdenotes parameter hmem ascription hascription⟩
    simpa using hall

theorem FnDecl.resolve_of_forall₂ {parameters : List Parameter} {tags : List Tag}
    (h : List.Forall₂ (fun parameter tag =>
        ∃ ascription, parameter.ascription = some ascription ∧ ascription.Denotes tag)
      parameters tags)
    (hfew : Uncrowded (parameters.filterMap (·.ascription))) :
    parameters.all (·.ascription.isSome) = true ∧
      (parameters.filterMap (·.ascription)).map (·.resolve.tag) = tags ∧
      (parameters.filterMap (·.ascription)).flatMap (·.resolve.findings) = [] := by
  induction h with
  | nil => exact ⟨rfl, rfl, rfl⟩
  | cons hfirst _ ih =>
    obtain ⟨ascription, hascription, hdenotes⟩ := hfirst
    rw [List.filterMap_cons, hascription] at hfew ⊢
    obtain ⟨hthis, hothers⟩ := uncrowded_cons.1 hfew
    obtain ⟨hall, hmap, hfindings⟩ := ih hothers
    simp [hascription, Ascription.resolve_of_denotes hdenotes hthis, hall, hmap, hfindings]

theorem ParametersDenote.resolve_eq {declaration : FnDecl} {known : Parameters}
    (h : ParametersDenote declaration.parameters known)
    (hfew : Uncrowded declaration.ascriptions) :
    declaration.knownParameters = known ∧
      declaration.ascriptions.flatMap (·.resolve.findings) = [] := by
  rw [FnDecl.ascriptions] at hfew
  rw [FnDecl.knownParameters, FnDecl.ascriptions]
  cases h with
  | tagged htags =>
    obtain ⟨hall, hmap, hfindings⟩ := FnDecl.resolve_of_forall₂ htags hfew
    rw [if_pos hall, hmap]
    exact ⟨rfl, hfindings⟩
  | counted hmissing hdenotes =>
    refine ⟨if_neg (by simpa using hmissing), List.flatMap_eq_nil_iff.2 ?_⟩
    intro ascription hmem
    obtain ⟨parameter, hparameter, hascription⟩ := List.mem_filterMap.1 hmem
    obtain ⟨tag, htag⟩ := hdenotes parameter hparameter ascription hascription
    rw [Ascription.resolve_of_denotes htag (hfew ascription hmem)]

/-! ## Values -/

/-- Using the symbol gives the tag of a value. -/
def Symbol.Valued : Symbol → Prop
  | value kind => kind ∈ Tag.values
  | function signature => signature.result ∈ Tag.values

/-- Every visible name gives the tag of a value. -/
def View.Valued (view : View) : Prop :=
  ∀ text symbol, view.visible text = some symbol → symbol.Valued

theorem View.Valued.allDefined {view : View} (h : view.Valued) : AllDefined view.visible := by
  intro text symbol hsymbol
  have hvalued := h text symbol hsymbol
  cases symbol with
  | value kind => exact Tag.ne_undefined_of_mem_values hvalued
  | function signature => exact Tag.ne_undefined_of_mem_values hvalued

theorem View.Valued.declare {view : View} (h : view.Valued) (text : String) (symbol : Symbol)
    (hsymbol : symbol.Valued) : (view.declare text symbol).Valued := by
  intro other found hfound
  simp only [View.declare] at hfound
  split at hfound
  · cases hfound
    exact hsymbol
  · exact h other found hfound

theorem View.Valued.inside {view : View} (h : view.Valued) : view.inside.Valued := h

theorem View.valued_start : View.start.Valued := by
  intro text symbol h
  simp [View.start] at h

/-- The tag of a typed expression is that of a value. -/
theorem HasTag.mem_values {view : View} (hvalued : view.Valued) :
    ∀ {e : Expr} {expected : Option Tag} {tag : Tag},
      HasTag view.visible expected e tag → tag ∈ Tag.values
  | _, _, _, .int => by decide
  | _, _, _, .str => by decide
  | _, _, _, .bool => by decide
  | _, _, _, .var hname => hvalued _ _ hname
  | _, _, _, .call hcallee _ => hvalued _ _ hcallee
  | _, _, _, @HasTag.unary _ _ op _ _ _ _ _ => by cases op <;> decide
  | _, _, _, @HasTag.binary _ _ op _ _ _ _ _ _ _ _ _ _ => by cases op <;> decide
  | _, _, _, .conditional _ _ hfirst hsecond hjoin _ =>
    Tag.join?_mem_values (hfirst.mem_values hvalued) (hsecond.mem_values hvalued) hjoin

mutual

/-- An item keeps the view free of other tags, and its statements have none. -/
theorem ItemTyped.valued {limit : Nat} :
    ∀ {view after : View} {item : Item} {statements : List Statement},
      ItemTyped limit view item after statements → view.Valued →
      after.Valued ∧ ∀ statement ∈ statements, statement.tag ∈ Tag.values
  | _, _, _, _, .var hdenotes _ _, hvalued =>
    ⟨hvalued.declare _ (.value _) hdenotes.mem_values, by simp⟩
  | _, _, _, _, .fn hdenotes _ _, hvalued =>
    ⟨hvalued.declare _ (.function ⟨_, _⟩) hdenotes.mem_values, by simp⟩
  | _, _, _, _, .block hitems, hvalued => ⟨hvalued, (hitems.valued hvalued.inside).2⟩
  | _, _, _, _, .expr _ htag, hvalued => ⟨hvalued, by simpa using htag.mem_values hvalued⟩

/-- Items keep the view free of other tags, and their statements have none. -/
theorem ItemsTyped.valued {limit : Nat} :
    ∀ {view after : View} {items : List Item} {statements : List Statement},
      ItemsTyped limit view items after statements → view.Valued →
      after.Valued ∧ ∀ statement ∈ statements, statement.tag ∈ Tag.values
  | _, _, _, _, .nil, hvalued => ⟨hvalued, by simp⟩
  | _, _, _, _, .cons hitem hrest, hvalued => by
    obtain ⟨hbetween, hfirst⟩ := hitem.valued hvalued
    obtain ⟨hafter, hothers⟩ := hrest.valued hbetween
    refine ⟨hafter, fun statement hmem => ?_⟩
    exact (List.mem_append.1 hmem).elim (hfirst statement) (hothers statement)

end

/-! ## Views and scopes -/

/-- The view is what the scopes show. -/
structure View.Shows (view : View) (scopes : Scopes) : Prop where
  visible : view.visible = scopes.symbol?
  declared : ∀ text, text ∈ view.declared ↔ (scopes.current.find? text).isSome = true

namespace View.Shows

theorem start : View.start.Shows .empty :=
  ⟨rfl, by simp [View.start, Scopes.empty]⟩

theorem inside {view : View} {scopes : Scopes} (h : view.Shows scopes) :
    view.inside.Shows scopes.enter := by
  refine ⟨?_, by simp [View.inside, Scopes.enter]⟩
  show view.visible = _
  rw [h.visible]
  funext text
  simp only [Scopes.symbol?, Scopes.find?_eq scopes.enter, Scopes.around?_enter]
  simp [Scopes.enter]

theorem not_declared_iff {view : View} {scopes : Scopes} (h : view.Shows scopes)
    (text : String) : text ∉ view.declared ↔ scopes.current.find? text = none := by
  rw [h.declared, Option.not_isSome_iff_eq_none]

theorem add {view : View} {scopes : Scopes} (h : view.Shows scopes) {name : Name}
    (symbol : Symbol) (hnew : name.text ∉ view.declared) :
    (view.declare name.text symbol).Shows (scopes.add ⟨name, symbol⟩) := by
  have hcurrent := (h.not_declared_iff name.text).1 hnew
  have hfind : ∀ text, (scopes.current.add ⟨name, symbol⟩).find? text =
      if text = name.text then some ⟨name, symbol⟩ else scopes.current.find? text := by
    intro text
    rw [Scope.find?_add]
    by_cases htext : text = name.text
    · subst htext
      rw [hcurrent]
      simp [Scope.find?]
    · simp [Scope.find?, htext, Ne.symm htext]
  constructor
  · funext text
    simp only [View.declare, h.visible, Scopes.symbol?, Scopes.find?_eq, Scopes.add, hfind]
    by_cases htext : text = name.text
    · simp [htext]
    · simp [htext, Scopes.around?]
  · intro text
    simp only [View.declare, List.mem_cons, h.declared, Scopes.add, hfind]
    by_cases htext : text = name.text
    · simp [htext]
    · simp [htext]

end View.Shows

/-- A declaration is free of errors exactly when the scope did not have the name. -/
theorem declareName_noError_iff (scopes : Scopes) (name : Name) (symbol : Symbol) :
    NoError (declareName scopes name symbol).findings ↔
      scopes.current.find? name.text = none := by
  unfold declareName Scopes.declare
  cases hfind : scopes.current.find? name.text with
  | some declaration => simp [noError_singleton, Finding.code, Code.severity]
  | none =>
    cases hshadow : scopes.shadowed? name.text <;>
      simp [noError_singleton, Finding.code, Code.severity]

/-! ## Declarations -/

theorem VarDecl.checkInitializer_sound {env : Env} {view : View} (hshows : view.Shows env.scopes)
    (hvalued : view.Valued) {declaration : VarDecl} {declared : Tag}
    (h : NoError (declaration.checkInitializer env declared)) :
    InitializerFits env.limit view declared declaration.initializer := by
  have hdefined := hvalued.allDefined
  rw [hshows.visible] at hdefined
  intro e he
  simp only [VarDecl.checkInitializer, he, noError_append] at h
  obtain ⟨htag, -, hheight⟩ := e.resolve_sound env hdefined (some declared) 0 h.1
  refine ⟨by omega, _, hshows.visible ▸ htag, ?_⟩
  have hfits := h.2
  split at hfits
  · assumption
  · simp [noError_singleton, Finding.code, Code.severity] at hfits

theorem VarDecl.checkInitializer_eq {env : Env} {view : View} (hshows : view.Shows env.scopes)
    (hvalued : view.Valued) {declaration : VarDecl} {declared : Tag}
    (h : InitializerFits env.limit view declared declaration.initializer) :
    declaration.checkInitializer env declared = [] := by
  have hdefined := hvalued.allDefined
  rw [hshows.visible] at hdefined
  rw [VarDecl.checkInitializer]
  cases he : declaration.initializer with
  | none => rfl
  | some e =>
    obtain ⟨hheight, tag, htag, haccepts⟩ := h e he
    rw [hshows.visible] at htag
    have hresolve := htag.resolve_eq hdefined 0 false (by omega)
    simp [hresolve, haccepts]

/-! ## Items without errors are well typed -/

mutual

/-- An item without errors is well typed, and leads to what the scopes show after
it.  The induction is on the item and its blocks. -/
theorem Item.analyze_sound (env : Env) :
    ∀ (item : Item) (view : View), view.Shows env.scopes → view.Valued →
      NoError (item.analyze env).findings →
      ∃ after, ItemTyped env.limit view item after (item.analyze env).statements ∧
        after.Shows (item.analyze env).scopes
  | .var declaration, view, hshows, hvalued, hsilent => by
    rw [Item.analyze, VarDecl.analyze] at hsilent ⊢
    simp only [noError_append] at hsilent
    obtain ⟨⟨hascription, hinitializer⟩, hdeclare⟩ := hsilent
    have hnew := (hshows.not_declared_iff declaration.name.text).2
      ((declareName_noError_iff _ _ _).1 hdeclare)
    simp only [declareName_scopes, declareName_statements]
    exact ⟨_, .var (Ascription.resolve_sound hascription)
      (VarDecl.checkInitializer_sound hshows hvalued hinitializer) hnew, hshows.add _ hnew⟩
  | .fn declaration, view, hshows, hvalued, hsilent => by
    rw [Item.analyze, FnDecl.analyze] at hsilent ⊢
    simp only [noError_append] at hsilent
    obtain ⟨⟨hresult, hparameters⟩, hdeclare⟩ := hsilent
    have hnew := (hshows.not_declared_iff declaration.name.text).2
      ((declareName_noError_iff _ _ _).1 hdeclare)
    simp only [declareName_scopes, declareName_statements]
    exact ⟨_, .fn (Ascription.resolve_sound hresult)
      (FnDecl.knownParameters_sound hparameters) hnew, hshows.add _ hnew⟩
  | .block items span, view, hshows, hvalued, hsilent => by
    have hscopes := Item.analyze_scopes env (.block items span)
    rw [hscopes]
    rw [Item.analyze] at hsilent ⊢
    obtain ⟨after, hitems, -⟩ :=
      analyzeItems_sound { env with scopes := env.scopes.enter } items view.inside
        hshows.inside hvalued.inside hsilent
    exact ⟨view, .block hitems, hshows⟩
  | .expr e, view, hshows, hvalued, hsilent => by
    have hdefined := hvalued.allDefined
    rw [hshows.visible] at hdefined
    rw [Item.analyze] at hsilent ⊢
    obtain ⟨htag, -, hheight⟩ := e.resolve_sound env hdefined none 0 hsilent
    exact ⟨view, .expr (by omega) (hshows.visible ▸ htag), hshows⟩

/-- Items without errors are well typed, one after the other. -/
theorem analyzeItems_sound (env : Env) :
    ∀ (items : List Item) (view : View), view.Shows env.scopes → view.Valued →
      NoError (analyzeItems env items).findings →
      ∃ after, ItemsTyped env.limit view items after (analyzeItems env items).statements ∧
        after.Shows (analyzeItems env items).scopes
  | [], view, hshows, hvalued, hsilent => by
    rw [analyzeItems]
    exact ⟨view, .nil, hshows⟩
  | item :: rest, view, hshows, hvalued, hsilent => by
    rw [analyzeItems] at hsilent ⊢
    simp only [noError_append] at hsilent
    obtain ⟨between, hitem, hbetween⟩ :=
      Item.analyze_sound env item view hshows hvalued hsilent.1
    obtain ⟨after, hrest, hafter⟩ :=
      analyzeItems_sound { env with scopes := (item.analyze env).scopes } rest between hbetween
        (hitem.valued hvalued).1 hsilent.2
    exact ⟨after, .cons hitem hrest, hafter⟩

end

/-! ## Well-typed items have no errors -/

mutual

/-- A well-typed item without crowded ascriptions is analysed without errors, its statements
are those of the derivation, and the scopes show the view that it leads to. -/
theorem ItemTyped.analyze_eq {limit : Nat} :
    ∀ {view after : View} {item : Item} {statements : List Statement},
      ItemTyped limit view item after statements → Uncrowded item.ascriptions →
      ∀ (scopes : Scopes), view.Shows scopes → view.Valued →
      NoError (item.analyze ⟨scopes, limit⟩).findings ∧
        (item.analyze ⟨scopes, limit⟩).statements = statements ∧
        after.Shows (item.analyze ⟨scopes, limit⟩).scopes
  | view, _, _, _, @ItemTyped.var _ _ declaration tag hdenotes hfits hnew, hfew, scopes, hshows,
      hvalued => by
    rw [Item.ascriptions, uncrowded_cons] at hfew
    rw [Item.analyze, VarDecl.analyze]
    simp only [Ascription.resolve_of_denotes hdenotes hfew.1, VarDecl.checkInitializer_eq
      (show view.Shows (Env.mk scopes limit).scopes from hshows) hvalued hfits,
      declareName_scopes, declareName_statements, noError_append, noError_nil, true_and]
    exact ⟨(declareName_noError_iff _ _ _).2 ((hshows.not_declared_iff _).1 hnew),
      hshows.add _ hnew⟩
  | view, _, _, _, @ItemTyped.fn _ _ declaration parameters result hdenotes hparameters hnew,
      hfew, scopes, hshows, hvalued => by
    rw [Item.ascriptions, uncrowded_cons] at hfew
    obtain ⟨hknown, hfindings⟩ := hparameters.resolve_eq hfew.2
    rw [Item.analyze, FnDecl.analyze]
    simp only [Ascription.resolve_of_denotes hdenotes hfew.1, hknown, hfindings,
      declareName_scopes, declareName_statements, noError_append, noError_nil, true_and]
    exact ⟨(declareName_noError_iff _ _ _).2 ((hshows.not_declared_iff _).1 hnew),
      hshows.add _ hnew⟩
  | view, _, _, _, @ItemTyped.block _ _ _ items span _ hitems, hfew, scopes, hshows,
      hvalued => by
    rw [Item.ascriptions] at hfew
    obtain ⟨hsilent, hstatements, -⟩ :=
      hitems.analyze_eq hfew scopes.enter hshows.inside hvalued.inside
    rw [Item.analyze_scopes, Item.analyze]
    exact ⟨hsilent, hstatements, hshows⟩
  | view, _, _, _, @ItemTyped.expr _ _ e tag hheight htag, hfew, scopes, hshows, hvalued => by
    have hdefined := hvalued.allDefined
    rw [hshows.visible] at htag hdefined
    have hresolve := @HasTag.resolve_eq ⟨scopes, limit⟩ hdefined _ _ _ htag 0 false
      (show 0 + e.height ≤ limit by omega)
    rw [Item.analyze, hresolve]
    exact ⟨noError_nil, rfl, hshows⟩

/-- Well-typed items without crowded ascriptions are analysed without errors. -/
theorem ItemsTyped.analyze_eq {limit : Nat} :
    ∀ {view after : View} {items : List Item} {statements : List Statement},
      ItemsTyped limit view items after statements → Uncrowded (ascriptionsOfEach items) →
      ∀ (scopes : Scopes), view.Shows scopes → view.Valued →
      NoError (analyzeItems ⟨scopes, limit⟩ items).findings ∧
        (analyzeItems ⟨scopes, limit⟩ items).statements = statements ∧
        after.Shows (analyzeItems ⟨scopes, limit⟩ items).scopes
  | _, _, _, _, .nil, hfew, scopes, hshows, hvalued => by
    rw [analyzeItems]
    exact ⟨noError_nil, rfl, hshows⟩
  | _, _, _, _, .cons hitem hrest, hfew, scopes, hshows, hvalued => by
    rw [ascriptionsOfEach, uncrowded_append] at hfew
    obtain ⟨hsilent, hfirst, hbetween⟩ := hitem.analyze_eq hfew.1 scopes hshows hvalued
    obtain ⟨hsilentRest, hothers, hafter⟩ :=
      hrest.analyze_eq hfew.2 _ hbetween (hitem.valued hvalued).1
    rw [analyzeItems]
    exact ⟨(noError_append _ _).2 ⟨hsilent, hsilentRest⟩, by rw [hfirst, hothers], hafter⟩

end

/-! ## Whole programs -/

/-- The log of a fresh session is free of errors exactly when the findings are. -/
theorem Log.hasErrors_record_empty (findings : List Finding) :
    (Log.empty.record findings).hasErrors = false ↔ NoError findings := by
  simp only [Log.record, Log.append, Log.empty, Log.hasErrors, List.nil_append,
    List.any_eq_false, List.forall_mem_map, NoError]
  refine forall₂_congr fun finding _ => ?_
  show ¬decide (finding.code.severity = .error) = true ↔ finding.code.severity = .warning
  cases finding.code.severity <;> decide

/-- The analysis of a program in a fresh session reports no error exactly when the program is
well typed and none of its ascriptions is crowded.  So verdict and judgment differ for exactly
the well-typed programs with a crowded ascription, and there the analysis reports that
ascription.

Without an error the recorded tags are those of the derivation, and every derivation has tags
of values only.  A recorded `undefined` never goes without an error. -/
theorem analyze_noError_iff_wellTyped_uncrowded (limit : Nat) (program : Program) :
    let recorded := ((Session.start limit .empty).analyze program).1
    let log := ((Session.start limit .empty).analyze program).2.log
    let wellTyped := ∃ statements, program.WellTyped limit statements
    let crowded := ∃ ascription ∈ program.ascriptions, Crowded ascription.members
    (log.hasErrors = false ↔ wellTyped ∧ ¬crowded) ∧
    (¬(log.hasErrors = false ↔ wellTyped) ↔ wellTyped ∧ crowded) ∧
    (∀ ascription ∈ program.ascriptions, Crowded ascription.members →
      (Finding.unsupportedUnion ascription.span).diagnostic ∈ log.diagnostics) ∧
    (∀ statements, program.WellTyped limit statements →
      (log.hasErrors = false → recorded = statements) ∧
        ∀ statement ∈ statements, statement.tag ∈
          [Tag.int, Tag.str, Tag.bool, Tag.intOrStr, Tag.intOrBool, Tag.strOrBool, Tag.any]) ∧
    ((∃ statement ∈ recorded, statement.tag = .undefined) → log.hasErrors = true) := by
  intro recorded log wellTyped crowded
  have hlog : log.hasErrors = false ↔
      NoError (analyzeItems ⟨.empty, limit⟩ program.items).findings :=
    Log.hasErrors_record_empty _
  have hcrowded : Uncrowded program.ascriptions ↔ ¬crowded := by
    simp only [Uncrowded, crowded, not_exists, not_and]
  have hsound : log.hasErrors = false →
      program.WellTyped limit recorded ∧ Uncrowded program.ascriptions := by
    intro hsilent
    obtain ⟨after, htyped, -⟩ := analyzeItems_sound ⟨.empty, limit⟩ program.items .start
      .start View.valued_start (hlog.1 hsilent)
    exact ⟨⟨after, htyped⟩, uncrowded_of_noError (hlog.1 hsilent)⟩
  have hcomplete : ∀ statements, program.WellTyped limit statements →
      Uncrowded program.ascriptions → log.hasErrors = false ∧ recorded = statements := by
    rintro statements ⟨after, htyped⟩ hfew
    obtain ⟨hsilent, hstatements, -⟩ :=
      htyped.analyze_eq hfew .empty .start View.valued_start
    exact ⟨hlog.2 hsilent, hstatements⟩
  have hvalues : ∀ statements, program.WellTyped limit statements →
      ∀ statement ∈ statements, statement.tag ∈ Tag.values := by
    rintro statements ⟨after, htyped⟩
    exact (htyped.valued View.valued_start).2
  have hverdict : log.hasErrors = false ↔ wellTyped ∧ ¬crowded := by
    constructor
    · intro hsilent
      obtain ⟨hwell, hfew⟩ := hsound hsilent
      exact ⟨⟨recorded, hwell⟩, hcrowded.1 hfew⟩
    · rintro ⟨⟨statements, hwell⟩, hfew⟩
      exact (hcomplete statements hwell (hcrowded.2 hfew)).1
  refine ⟨hverdict, ?_, ?_, ?_, ?_⟩
  · rw [hverdict, and_iff_left_iff_imp, Classical.not_imp, not_not]
  · intro ascription hmem hmembers
    exact List.mem_map_of_mem (mem_findings_of_crowded ⟨.empty, limit⟩ hmem hmembers)
  · intro statements hwell
    refine ⟨fun hsilent => ?_, hvalues statements hwell⟩
    exact (hcomplete statements hwell (hsound hsilent).2).2
  · rintro ⟨statement, hmem, htag⟩
    cases herrors : log.hasErrors with
    | true => rfl
    | false =>
      have hvalue := hvalues recorded (hsound herrors).1 statement hmem
      exact absurd htag (Tag.ne_undefined_of_mem_values hvalue)

/-- A well-typed program that is rejected.  `any` widens the whole ascription, but joins from
left to right stop before they come to it. -/
theorem wellTyped_rejected_late_any :
    let ascription : Ascription := ⟨[.int, .str, .bool, .any], ⟨7, 23⟩⟩
    let program : Program := ⟨[.var ⟨⟨"x", ⟨4, 5⟩⟩, ascription, none, ⟨0, 24⟩⟩], ⟨0, 24⟩⟩
    (Log.empty.parse defaultLimit "var x: int|str|bool|any;").1 = some program ∧
    program.WellTyped defaultLimit [] ∧
    ((Session.start defaultLimit .empty).analyze program).2.log.hasErrors = true := by
  intro ascription program
  have hdenotes : ascription.Denotes .any :=
    ⟨by decide, ⟨fun _ => by decide, fun _ => rfl⟩, fun hne => absurd rfl hne⟩
  have htokens : tokens "var x: int|str|bool|any;" =
      [⟨.kwVar, ⟨0, 3⟩⟩, ⟨.name "x", ⟨4, 5⟩⟩, ⟨.colon, ⟨5, 6⟩⟩, ⟨.base .int, ⟨7, 10⟩⟩,
        ⟨.pipe, ⟨10, 11⟩⟩, ⟨.base .str, ⟨11, 14⟩⟩, ⟨.pipe, ⟨14, 15⟩⟩, ⟨.base .bool, ⟨15, 19⟩⟩,
        ⟨.pipe, ⟨19, 20⟩⟩, ⟨.base .any, ⟨20, 23⟩⟩, ⟨.semicolon, ⟨23, 24⟩⟩] := by decide +kernel
  have hread : Program.ofTokens 24 (tokens "var x: int|str|bool|any;") = .ok program := by
    rw [htokens]
    rfl
  refine ⟨Log.parse_eq_some_iff.2 ⟨by decide +kernel, hread, by decide +kernel, rfl⟩,
    ⟨_, .cons (.var hdenotes ?_ ?_) .nil⟩, by decide +kernel⟩
  · intro e he
    contradiction
  · exact List.not_mem_nil

end TagLang
