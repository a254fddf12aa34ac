import TagLang.Session

/-!
# Lexical scoping

The analysis threads one stack of scopes through a program and its blocks.  This
module says what that stack shows, without a stack.

There are three groups.

* The scope of one block.  `Scope.add` keeps the first declaration of a name, and
  `Item.analyze_scopes` and `analyzeItems_scopes` say that the declarations of a
  block are the only trace that its items leave.
* The walk.  `visitItems` lists the items in the order in which the analysis comes
  to them, each with the scopes at that moment.  `analyzeItems_visits` puts the
  findings and statements of the analysis together from it, and `visitItems_all` says
  that only declarations of the program are ever in sight.
* The lexical view.  `placements` lists the same items with what the text of the
  program makes visible there: the first earlier declaration in the same block, or
  else what is visible at the block itself.  `visitItems_placements` says that the
  two lists agree.
-/

namespace TagLang

/-! ## The scope of one block -/

/-- The scope after a declaration.  The first declaration of a name stays. -/
def Scope.add (scope : Scope) (declaration : Declaration) : Scope :=
  match scope.find? declaration.name.text with
  | some _ => scope
  | none => scope ++ [declaration]

/-- What the declaration of a variable declares. -/
def VarDecl.declared (declaration : VarDecl) : Declaration :=
  ⟨declaration.name, .value declaration.ascription.resolve.tag⟩

/-- What the declaration of a function declares. -/
def FnDecl.declared (declaration : FnDecl) : Declaration :=
  ⟨declaration.name,
    .function ⟨declaration.knownParameters, declaration.result.resolve.tag⟩⟩

/-- What an item declares in the block that it stands in. -/
def Item.declared? : Item → Option Declaration
  | .var declaration => some declaration.declared
  | .fn declaration => some declaration.declared
  | .block _ _ => none
  | .expr _ => none

/-- What the items of a block declare in it, in order and with repetitions. -/
def declarations (items : List Item) : List Declaration :=
  items.filterMap Item.declared?

/-- The first declaration of a name among the items of a block. -/
def firstDeclaration? (items : List Item) (text : String) : Option Declaration :=
  Scope.find? (declarations items) text

@[simp]
theorem Scope.find?_nil (text : String) : Scope.find? [] text = none := rfl

theorem Scope.find?_append (first second : Scope) (text : String) :
    Scope.find? (first ++ second) text = (first.find? text).or (second.find? text) := by
  simp [Scope.find?, List.find?_append]

theorem Scope.find?_add (scope : Scope) (declaration : Declaration) (text : String) :
    (scope.add declaration).find? text =
      (scope.find? text).or (Scope.find? [declaration] text) := by
  unfold Scope.add
  split
  · rename_i found hfound
    by_cases htext : declaration.name.text = text
    · subst htext
      simp [hfound]
    · have hother : Scope.find? [declaration] text = none := by
        simp [Scope.find?, htext]
      simp [hother]
  · exact Scope.find?_append scope [declaration] text

/-- The declarations that are new in a scope: the first ones of their names among
`added`, as far as the scope does not have the name. -/
theorem Scope.foldl_add_eq_append (scope : Scope) (added : List Declaration) :
    ∃ fresh, added.foldl Scope.add scope = scope ++ fresh ∧
      (fresh.map (·.name.text)).Nodup ∧
      ∀ declaration, declaration ∈ fresh ↔
        scope.find? declaration.name.text = none ∧
          Scope.find? added declaration.name.text = some declaration := by
  induction added generalizing scope with
  | nil => exact ⟨[], by simp⟩
  | cons head added ih =>
    obtain ⟨fresh, hfold, hnodup, hfresh⟩ := ih (scope.add head)
    rw [List.foldl_cons, hfold]
    cases hscope : scope.find? head.name.text with
    | some found =>
      -- The name is taken: `head` changes nothing, and it is nobody's first fresh one.
      have hadd : scope.add head = scope := by simp [Scope.add, hscope]
      rw [hadd] at hfresh ⊢
      refine ⟨fresh, rfl, hnodup, fun declaration => ?_⟩
      rw [hfresh declaration]
      refine and_congr_right fun hnone => ?_
      have hne : head.name.text ≠ declaration.name.text := by
        intro heq
        rw [heq, hnone] at hscope
        exact absurd hscope (by simp)
      simp [Scope.find?, hne]
    | none =>
      have hadd : scope.add head = scope ++ [head] := by simp [Scope.add, hscope]
      rw [hadd] at hfresh ⊢
      have hnotin : ∀ declaration ∈ fresh, head.name.text ≠ declaration.name.text := by
        intro declaration hmem heq
        have hnone := ((hfresh declaration).1 hmem).1
        rw [Scope.find?_append, ← heq] at hnone
        simp [Scope.find?] at hnone
      refine ⟨head :: fresh, by simp, ?_, fun declaration => ?_⟩
      · rw [List.map_cons, List.nodup_cons]
        refine ⟨fun hmem => ?_, hnodup⟩
        obtain ⟨declaration, hdecl, heq⟩ := List.mem_map.1 hmem
        exact hnotin declaration hdecl heq.symm
      · rw [List.mem_cons, hfresh declaration, Scope.find?_append]
        by_cases heq : head.name.text = declaration.name.text
        · have hfound : Scope.find? (head :: added) declaration.name.text = some head := by
            simp [Scope.find?, heq]
          rw [hfound, ← heq, hscope]
          simp [Scope.find?, eq_comm]
        · have hne : declaration ≠ head := by
            rintro rfl
            exact heq rfl
          simp [Scope.find?, heq, hne]

/-! ## What items leave behind -/

/-- The scopes after a declaration in the current one. -/
def Scopes.add (scopes : Scopes) (declaration : Declaration) : Scopes :=
  { scopes with current := scopes.current.add declaration }

theorem declareName_scopes (scopes : Scopes) (name : Name) (symbol : Symbol) :
    (declareName scopes name symbol).scopes = scopes.add ⟨name, symbol⟩ := by
  unfold declareName Scopes.declare Scopes.add Scope.add
  cases hfind : scopes.current.find? name.text with
  | some declaration => simp
  | none => cases hshadow : scopes.shadowed? name.text <;> simp

theorem declareName_statements (scopes : Scopes) (name : Name) (symbol : Symbol) :
    (declareName scopes name symbol).statements = [] := by
  unfold declareName
  split
  · rfl
  · split <;> rfl

theorem VarDecl.analyze_scopes (env : Env) (declaration : VarDecl) :
    (declaration.analyze env).scopes = env.scopes.add declaration.declared :=
  declareName_scopes env.scopes declaration.name _

theorem FnDecl.analyze_scopes (env : Env) (declaration : FnDecl) :
    (declaration.analyze env).scopes = env.scopes.add declaration.declared :=
  declareName_scopes env.scopes declaration.name _

mutual

/-- An item leaves its declaration in the current scope and nothing else.  A block
leaves nothing, whatever it holds. -/
theorem Item.analyze_scopes (env : Env) :
    ∀ item : Item, (item.analyze env).scopes = item.declared?.elim env.scopes env.scopes.add
  | .var declaration => by
    rw [Item.analyze]
    exact declaration.analyze_scopes env
  | .fn declaration => by
    rw [Item.analyze]
    exact declaration.analyze_scopes env
  | .block items span => by
    rw [Item.analyze]
    show (analyzeItems { env with scopes := env.scopes.enter } items).scopes.exit = env.scopes
    rw [analyzeItems_scopes]
    rfl
  | .expr e => by
    rw [Item.analyze]
    rfl

/-- Items leave the first declaration of each name that the current scope did not
have.  The scopes around it stay as they are. -/
theorem analyzeItems_scopes (env : Env) :
    ∀ items : List Item, (analyzeItems env items).scopes =
      { env.scopes with current := (declarations items).foldl Scope.add env.scopes.current }
  | [] => by
    rw [analyzeItems]
    rfl
  | item :: rest => by
    rw [analyzeItems]
    show (analyzeItems { env with scopes := (item.analyze env).scopes } rest).scopes = _
    rw [analyzeItems_scopes, Item.analyze_scopes]
    cases hdeclared : item.declared? with
    | none => simp [declarations, hdeclared]
    | some declaration => simp [declarations, hdeclared, Scopes.add]

end

/-! ## The walk over a program -/

/-- The moment when the analysis comes to an item. -/
structure Visit where
  item : Item
  scopes : Scopes

mutual

/-- The visits to an item and to the items inside it. -/
def Item.visits (env : Env) : Item → List Visit
  | .block items span =>
    ⟨.block items span, env.scopes⟩ ::
      visitItems { env with scopes := env.scopes.enter } items
  | item => [⟨item, env.scopes⟩]

/-- The visits to items that are analysed one after the other. -/
def visitItems (env : Env) : List Item → List Visit
  | [] => []
  | item :: rest =>
    item.visits env ++ visitItems { env with scopes := (item.analyze env).scopes } rest

end

/-- What the analysis does for an item itself.  For a block that is nothing: its
items have visits of their own. -/
def Visit.analysis (limit : Nat) (visit : Visit) : Analysis :=
  match visit.item with
  | .block _ _ => ⟨visit.scopes, [], []⟩
  | item => item.analyze ⟨visit.scopes, limit⟩

mutual

/-- The findings and statements of an item are those of the visits to it. -/
theorem Item.analyze_visits (env : Env) :
    ∀ item : Item,
      (item.analyze env).findings =
          (item.visits env).flatMap (fun visit => (visit.analysis env.limit).findings) ∧
        (item.analyze env).statements =
          (item.visits env).flatMap fun visit => (visit.analysis env.limit).statements
  | .var declaration => by simp [Item.visits, Visit.analysis]
  | .fn declaration => by simp [Item.visits, Visit.analysis]
  | .block items span => by
    have ih := analyzeItems_visits { env with scopes := env.scopes.enter } items
    simp only [Item.analyze, Item.visits, List.flatMap_cons, ih.1, ih.2]
    exact ⟨rfl, rfl⟩
  | .expr e => by simp [Item.visits, Visit.analysis]

/-- The findings and statements of items are those of the visits to them, in
order. -/
theorem analyzeItems_visits (env : Env) :
    ∀ items : List Item,
      (analyzeItems env items).findings =
          (visitItems env items).flatMap (fun visit => (visit.analysis env.limit).findings) ∧
        (analyzeItems env items).statements =
          (visitItems env items).flatMap fun visit => (visit.analysis env.limit).statements
  | [] => by simp [analyzeItems, visitItems]
  | item :: rest => by
    have hitem := Item.analyze_visits env item
    have hrest := analyzeItems_visits { env with scopes := (item.analyze env).scopes } rest
    simp only [analyzeItems, visitItems, List.flatMap_append, hitem.1, hitem.2, hrest.1,
      hrest.2, and_self]

end

/-! ## Declarations in sight -/

/-- Every declaration in the scopes has the property. -/
def Scopes.All (p : Declaration → Prop) (scopes : Scopes) : Prop :=
  ∀ scope ∈ scopes.current :: scopes.outer, ∀ declaration ∈ scope, p declaration

theorem Scopes.All.empty (p : Declaration → Prop) : Scopes.empty.All p := by
  simp [Scopes.All, Scopes.empty]

theorem Scopes.All.enter {p : Declaration → Prop} {scopes : Scopes} (h : scopes.All p) :
    scopes.enter.All p := by
  intro scope hscope declaration hmem
  rcases List.mem_cons.1 hscope with rfl | hscope
  · contradiction
  · exact h scope hscope declaration hmem

theorem Scopes.All.add {p : Declaration → Prop} {scopes : Scopes} (h : scopes.All p)
    {added : Declaration} (hadded : p added) : (scopes.add added).All p := by
  intro scope hscope declaration hmem
  rcases List.mem_cons.1 hscope with rfl | hscope
  · change declaration ∈ scopes.current.add added at hmem
    unfold Scope.add at hmem
    split at hmem
    · exact h scopes.current (by simp) declaration hmem
    · rcases List.mem_append.1 hmem with hmem | hmem
      · exact h scopes.current (by simp) declaration hmem
      · rw [List.mem_singleton.1 hmem]
        exact hadded
  · exact h scope (List.mem_cons_of_mem _ hscope) declaration hmem

/-- What is found in one of the scopes has the property and the name. -/
theorem Scopes.All.findSome? {p : Declaration → Prop} {scopes : Scopes} (h : scopes.All p)
    {part : List Scope} (hpart : part ⊆ scopes.current :: scopes.outer) {text : String}
    {declaration : Declaration} (hfind : part.findSome? (·.find? text) = some declaration) :
    p declaration ∧ declaration.name.text = text := by
  obtain ⟨scope, hscope, hfound⟩ := List.exists_of_findSome?_eq_some hfind
  exact ⟨h scope (hpart hscope) declaration (List.mem_of_find?_eq_some hfound),
    by simpa using List.find?_some hfound⟩

theorem Scopes.All.find? {p : Declaration → Prop} {scopes : Scopes} (h : scopes.All p)
    {text : String} {declaration : Declaration} (hfind : scopes.find? text = some declaration) :
    p declaration ∧ declaration.name.text = text :=
  h.findSome? (List.Subset.refl _) hfind

theorem Item.mem_visits (env : Env) (item : Item) : ⟨item, env.scopes⟩ ∈ item.visits env := by
  cases item <;> simp [Item.visits]

mutual

/-- What holds of the declarations in sight before an item, and of those that the item
makes, holds of the declarations in sight at every visit to it. -/
theorem Item.visits_all {p : Declaration → Prop} (env : Env) (hscopes : env.scopes.All p) :
    ∀ item : Item,
      (∀ visit ∈ item.visits env, ∀ declared, visit.item.declared? = some declared → p declared) →
      ∀ visit ∈ item.visits env, visit.scopes.All p
  | .var _, _, visit, hvisit => by
    obtain rfl := List.mem_singleton.1 hvisit
    exact hscopes
  | .fn _, _, visit, hvisit => by
    obtain rfl := List.mem_singleton.1 hvisit
    exact hscopes
  | .block items span, hdeclared, visit, hvisit => by
    rw [Item.visits] at hdeclared hvisit
    rcases List.mem_cons.1 hvisit with rfl | hvisit
    · exact hscopes
    · exact visitItems_all { env with scopes := env.scopes.enter } hscopes.enter items
        (fun visit hmem => hdeclared visit (List.mem_cons_of_mem _ hmem)) visit hvisit
  | .expr _, _, visit, hvisit => by
    obtain rfl := List.mem_singleton.1 hvisit
    exact hscopes

theorem visitItems_all {p : Declaration → Prop} (env : Env) (hscopes : env.scopes.All p) :
    ∀ items : List Item,
      (∀ visit ∈ visitItems env items, ∀ declared,
        visit.item.declared? = some declared → p declared) →
      ∀ visit ∈ visitItems env items, visit.scopes.All p
  | [], _, visit, hvisit => by simp [visitItems] at hvisit
  | item :: rest, hdeclared, visit, hvisit => by
    rw [visitItems] at hdeclared hvisit
    have hafter : (item.analyze env).scopes.All p := by
      rw [Item.analyze_scopes]
      cases hitem : item.declared? with
      | none => exact hscopes
      | some declared =>
        exact hscopes.add (hdeclared _ (List.mem_append_left _ (item.mem_visits env)) _ hitem)
    rcases List.mem_append.1 hvisit with hvisit | hvisit
    · exact Item.visits_all env hscopes item
        (fun visit hmem => hdeclared visit (List.mem_append_left _ hmem)) visit hvisit
    · exact visitItems_all { env with scopes := (item.analyze env).scopes } hafter rest
        (fun visit hmem => hdeclared visit (List.mem_append_right _ hmem)) visit hvisit

end

/-! ## The lexical view -/

/-- What the text of a program makes visible at an item. -/
structure Placement where
  item : Item
  visible : String → Option Declaration

mutual

/-- An item and the items inside it, where `visible` is visible at the item. -/
def Item.placements (visible : String → Option Declaration) : Item → List Placement
  | .block items span =>
    ⟨.block items span, visible⟩ :: placements (fun _ => none) visible [] items
  | item => [⟨item, visible⟩]

/-- The items of a block that come after the items `earlier` of the same block, and
the items inside them.  `present` is what the scope of the block shows before its
first item, and `around` what is visible where the block stands. -/
def placements (present around : String → Option Declaration) (earlier : List Item) :
    List Item → List Placement
  | [] => []
  | item :: rest =>
    item.placements
        (fun text => ((present text).or (firstDeclaration? earlier text)).or (around text)) ++
      placements present around (earlier ++ [item]) rest

end

/-- What the scopes around the current one show. -/
def Scopes.around? (scopes : Scopes) (text : String) : Option Declaration :=
  scopes.outer.findSome? (·.find? text)

theorem Scopes.find?_eq (scopes : Scopes) (text : String) :
    scopes.find? text = (scopes.current.find? text).or (scopes.around? text) := by
  unfold Scopes.find? Scopes.around?
  rw [List.findSome?_cons]
  cases scopes.current.find? text <;> rfl

theorem Scopes.around?_enter (scopes : Scopes) (text : String) :
    scopes.enter.around? text = scopes.find? text := rfl

/-- The view of a visit: the item, and what a lookup finds at that moment. -/
def Visit.view (visit : Visit) : Placement :=
  ⟨visit.item, visit.scopes.find?⟩

theorem firstDeclaration?_append (first second : List Item) (text : String) :
    firstDeclaration? (first ++ second) text =
      (firstDeclaration? first text).or (firstDeclaration? second text) := by
  unfold firstDeclaration? declarations
  rw [List.filterMap_append]
  exact Scope.find?_append _ _ text

/-- After an item the current scope shows what it showed before, or else what the
item declares. -/
theorem Item.find?_analyze (env : Env) (item : Item) (text : String) :
    (item.analyze env).scopes.current.find? text =
      (env.scopes.current.find? text).or (firstDeclaration? [item] text) := by
  rw [Item.analyze_scopes]
  unfold firstDeclaration? declarations
  cases hdeclared : item.declared? with
  | none => simp [hdeclared]
  | some declaration =>
    simp only [List.filterMap_cons, hdeclared, List.filterMap_nil, Option.elim_some]
    exact Scope.find?_add env.scopes.current declaration text

theorem Item.outer_analyze (env : Env) (item : Item) :
    (item.analyze env).scopes.outer = env.scopes.outer := by
  rw [Item.analyze_scopes]
  cases item.declared? <;> rfl

mutual

/-- The walk through an item sees what the text makes visible. -/
theorem Item.visits_placements (env : Env) :
    ∀ item : Item, (item.visits env).map Visit.view = item.placements env.scopes.find?
  | .var declaration => by simp [Item.visits, Item.placements, Visit.view]
  | .fn declaration => by simp [Item.visits, Item.placements, Visit.view]
  | .block items span => by
    have ih := visitItems_placements { env with scopes := env.scopes.enter } (fun _ => none)
      env.scopes.find? [] items (fun _ => rfl) (fun _ => rfl)
    simp only [Item.visits, Item.placements, List.map_cons, ih]
    rfl
  | .expr e => by simp [Item.visits, Item.placements, Visit.view]

/-- The walk through the rest of a block sees what the text makes visible, if the
scopes hold what the items before have declared. -/
theorem visitItems_placements (env : Env) (present around : String → Option Declaration)
    (earlier : List Item) :
    ∀ items : List Item,
      (∀ text, env.scopes.current.find? text =
        (present text).or (firstDeclaration? earlier text)) →
      (∀ text, env.scopes.around? text = around text) →
      (visitItems env items).map Visit.view = placements present around earlier items
  | [], _, _ => by simp [visitItems, placements]
  | item :: rest, hcurrent, haround => by
    have hvisible : env.scopes.find? =
        fun text => ((present text).or (firstDeclaration? earlier text)).or (around text) := by
      funext text
      rw [Scopes.find?_eq, hcurrent, haround]
    have hrest := visitItems_placements { env with scopes := (item.analyze env).scopes }
      present around (earlier ++ [item]) rest
      (fun text => by
        rw [Item.find?_analyze, hcurrent, firstDeclaration?_append, Option.or_assoc])
      (fun text => by
        rw [← haround]
        unfold Scopes.around?
        rw [Item.outer_analyze])
    rw [visitItems, placements, List.map_append, hrest, Item.visits_placements, hvisible]

end

/-! ## Whole programs -/

/-- A variable with an initializer is resolved in the scopes of its visit, which do
not hold the variable yet; only then is it declared. -/
theorem Visit.analysis_initializer (limit : Nat) {visit : Visit} {declaration : VarDecl}
    {e : Expr} (hitem : visit.item = .var declaration)
    (hinit : declaration.initializer = some e) :
    let declared := declaration.ascription.resolve
    let outcome := e.resolve ⟨visit.scopes, limit⟩ (some declared.tag) 0 false
    (visit.analysis limit).findings =
      declared.findings ++
        (outcome.findings ++
          if declared.tag.accepts outcome.tag then []
          else [.initializer declaration.name.text declared.tag outcome.tag e.span]) ++
        (declareName visit.scopes declaration.name (.value declared.tag)).findings := by
  simp [Visit.analysis, hitem, Item.analyze, VarDecl.analyze, VarDecl.checkInitializer, hinit]

/-- The analysis of a program is lexically scoped, from any starting scopes.

What it records and finds is what it does at its visits, in order.  At each visit a
lookup answers with the first declaration of the name among the earlier items of
the same block, and otherwise with what is visible where the block stands; at the
outermost level the current scope of the start comes before both.  An initializer
is resolved before its variable is declared.  Afterwards the scopes around the
current one are unchanged, and the current one has grown by the first declarations
of the names that it did not have. -/
theorem analyze_lexically_scoped (session : Session) (program : Program) :
    let start := session.scopes
    let visits := visitItems ⟨start, session.limit⟩ program.items
    let recorded := (session.analyze program).1
    let after := (session.analyze program).2
    recorded = visits.flatMap (fun visit => (visit.analysis session.limit).statements) ∧
    after.log = session.log.record
      (visits.flatMap fun visit => (visit.analysis session.limit).findings) ∧
    visits.map Visit.view = placements start.current.find? start.around? [] program.items ∧
    (∀ visit ∈ visits, ∀ declaration e, visit.item = .var declaration →
      declaration.initializer = some e →
      let declared := declaration.ascription.resolve
      let outcome := e.resolve ⟨visit.scopes, session.limit⟩ (some declared.tag) 0 false
      (visit.analysis session.limit).findings =
        declared.findings ++
          (outcome.findings ++
            if declared.tag.accepts outcome.tag then []
            else [.initializer declaration.name.text declared.tag outcome.tag e.span]) ++
          (declareName visit.scopes declaration.name (.value declared.tag)).findings) ∧
    after.scopes.depth = start.depth ∧
    after.scopes.outer = start.outer ∧
    ∃ fresh, after.scopes.current = start.current ++ fresh ∧
      (fresh.map (·.name.text)).Nodup ∧
      ∀ declaration, declaration ∈ fresh ↔
        start.current.find? declaration.name.text = none ∧
          firstDeclaration? program.items declaration.name.text = some declaration := by
  intro start visits recorded after
  have hvisits := analyzeItems_visits ⟨start, session.limit⟩ program.items
  have hscopes : after.scopes =
      { start with current := (declarations program.items).foldl Scope.add start.current } :=
    analyzeItems_scopes ⟨start, session.limit⟩ program.items
  refine ⟨hvisits.2, ?_, ?_, ?_, ?_, ?_, ?_⟩
  · exact congrArg session.log.record hvisits.1
  · refine visitItems_placements _ _ _ [] program.items (fun text => ?_) (fun text => rfl)
    simp [firstDeclaration?, declarations, start]
  · intro visit _ declaration e hitem hinit
    exact Visit.analysis_initializer session.limit hitem hinit
  · rw [hscopes]
    rfl
  · rw [hscopes]
  · rw [hscopes]
    exact Scope.foldl_add_eq_append start.current (declarations program.items)

end TagLang
