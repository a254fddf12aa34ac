import TagLang.Proofs.Outline
import TagLang.Proofs.Scoping
import TagLang.Proofs.Typing

/-!
# The causes of findings

Why the analysis of a program makes a finding.  `Finding.Caused` has one constructor for
each kind of finding: what is in sight there, which test failed, and the parts of the
program that the finding refers to.  The parts are nodes of an outline.

The analysis is followed once.

* Each single node has a lemma, from `resolveName_caused` to `resolveBranches_caused`.
* `Expr.plan_caused` puts them together for the plan of a node, `Expr.resolve_caused` goes
  through an expression, and `Visit.caused` through an item.
* `Program.analyze_caused` says it of every finding on a program: it is caused at a visit,
  in sight of declarations of the program only.

Facts about all findings are then read off the constructors.
-/

namespace TagLang

/-! ## Parts of an outline -/

/-- One of the nodes has the span. -/
def StandsIn (nodes : List Outline) (span : Span) : Prop :=
  ∃ node ∈ nodes, node.span = span

section

variable {nodes : List Outline}

theorem Outline.mem_of_subset {outline : Outline} (h : outline.nodes ⊆ nodes) : outline ∈ nodes :=
  h (mem_nodes.2 (.inl rfl))

/-- The nodes of a part are nodes of the whole. -/
theorem Outline.parts_subset {outline : Outline} (h : outline.nodes ⊆ nodes) :
    ∀ part ∈ outline.parts, part.nodes ⊆ nodes :=
  fun part hpart _ hnode => h (mem_nodes.2 (.inr (mem_nodesOfEach.2 ⟨part, hpart, hnode⟩)))

theorem outline_mem_outlinesOfEach {e : Expr} {es : List Expr} (h : e ∈ es) :
    e.outline ∈ outlinesOfEach es := by
  induction es with
  | nil => contradiction
  | cons first rest ih =>
    rw [outlinesOfEach]
    rcases List.mem_cons.1 h with rfl | h
    · exact List.mem_cons_self
    · exact List.mem_cons_of_mem _ (ih h)

/-- The outline of a part is a part of the outline. -/
theorem Expr.outline_mem_parts {part e : Expr} (h : part ∈ e.parts) :
    part.outline ∈ e.outline.parts := by
  cases e with
  | literal value span | var name span => contradiction
  | call callee arguments span =>
    rw [Expr.outline]
    exact List.mem_cons_of_mem _ (outline_mem_outlinesOfEach h)
  | unary op operand span | binary op left right span
  | conditional condition consequent alternative span =>
    simp only [Expr.parts, List.mem_cons, List.not_mem_nil, or_false] at h
    rw [Expr.outline]
    rcases h with rfl | rfl | rfl <;> simp [Outline.parts]

theorem Expr.standsIn {e : Expr} (h : e.outline.nodes ⊆ nodes) : StandsIn nodes e.span :=
  ⟨e.outline, Outline.mem_of_subset h, e.span_outline⟩

end

/-! ## Causes -/

/-- Why a finding is made in an environment.  The parts that it refers to are among the
nodes. -/
inductive Finding.Caused (env : Env) (nodes : List Outline) : Finding → Prop where
  | undeclared {name : Name} :
      name.outline ∈ nodes → env.scopes.symbol? name.text = none →
      Caused env nodes (.undeclared name)
  | functionAsValue {name : Name} {signature : Signature} :
      name.outline ∈ nodes → env.scopes.symbol? name.text = some (.function signature) →
      Caused env nodes (.functionAsValue name)
  | notCallable {name : Name} {kind : Tag} :
      name.outline ∈ nodes → env.scopes.symbol? name.text = some (.value kind) →
      Caused env nodes (.notCallable name kind)
  | arity {name : Name} {signature : Signature} {given : Nat} {span : Span} :
      name.outline ∈ nodes → StandsIn nodes span →
      env.scopes.symbol? name.text = some (.function signature) →
      given ≠ signature.parameters.count →
      Caused env nodes (.arity name.text signature.parameters.count given span)
  | argument {name : Name} {index : Nat} {expected found : Tag} {span : Span} :
      name.outline ∈ nodes → StandsIn nodes span → expected.accepts found = false →
      Caused env nodes (.argument name.text index expected found span)
  /-- The text of the expectation describes the rule of the operator, or names the tag that
  the other operand is narrowed to. -/
  | operand {operator : Operator} {expected : String} {found : Tag} {place whole : Span} :
      StandsIn nodes place → StandsIn nodes whole → found ≠ .undefined →
      (expected = operator.rule.describe ∨
        ∃ other, other ≠ .undefined ∧ (operator.rule.narrow? other).map Tag.name = some expected) →
      Caused env nodes (.operand operator expected found place whole)
  | branches {consequent alternative : Tag} {consequentSpan alternativeSpan : Span} :
      StandsIn nodes consequentSpan → StandsIn nodes alternativeSpan →
      consequent ≠ .undefined → alternative ≠ .undefined →
      Caused env nodes (.branches consequent alternative consequentSpan alternativeSpan)
  | condition {found : Tag} {span : Span} :
      StandsIn nodes span → Tag.bool.accepts found = false →
      Caused env nodes (.condition found span)
  | tooDeep {span : Span} :
      StandsIn nodes span → Caused env nodes (.tooDeep env.limit span)
  | initializer {name : Name} {expected found : Tag} {span : Span} :
      name.outline ∈ nodes → StandsIn nodes span → expected.accepts found = false →
      Caused env nodes (.initializer name.text expected found span)
  | unsupportedUnion {ascription : Ascription} :
      ascription.outline ∈ nodes → ascription.tag? = none →
      Caused env nodes (.unsupportedUnion ascription.span)
  | duplicate {name : Name} {previous : Declaration} :
      name.outline ∈ nodes → env.scopes.current.find? name.text = some previous →
      Caused env nodes (.duplicate name previous.name.span)
  | shadowed {name : Name} {outer : Declaration} :
      name.outline ∈ nodes → env.scopes.around? name.text = some outer →
      Caused env nodes (.shadowed name outer.name.span)

/-- All findings have causes. -/
def AllCaused (env : Env) (nodes : List Outline) (findings : List Finding) : Prop :=
  ∀ finding ∈ findings, finding.Caused env nodes

section

variable {env : Env} {nodes : List Outline}

theorem AllCaused.nil : AllCaused env nodes [] :=
  List.forall_mem_nil _

theorem AllCaused.single {finding : Finding} (h : finding.Caused env nodes) :
    AllCaused env nodes [finding] :=
  List.forall_mem_singleton.2 h

theorem AllCaused.append {first second : List Finding} (hfirst : AllCaused env nodes first)
    (hsecond : AllCaused env nodes second) : AllCaused env nodes (first ++ second) :=
  List.forall_mem_append.2 ⟨hfirst, hsecond⟩

/-! ## Single nodes -/

theorem resolveName_caused {name : Name} (h : name.outline ∈ nodes) :
    AllCaused env nodes (resolveName env.scopes name).findings := by
  unfold resolveName
  split
  · exact .nil
  · exact .single (.functionAsValue h ‹_›)
  · exact .single (.undeclared h ‹_›)

theorem checkCallee_caused {callee : Name} (h : callee.outline ∈ nodes) (given : Nat)
    {span : Span} (hspan : StandsIn nodes span) :
    AllCaused env nodes (checkCallee env.scopes callee given span) := by
  unfold checkCallee
  split
  · split
    · exact .nil
    · exact .single (.arity h hspan ‹_› ‹_›)
  · exact .single (.notCallable h ‹_›)
  · exact .single (.undeclared h ‹_›)

theorem checkArgument_caused {callee : Name} (h : callee.outline ∈ nodes) (index : Nat)
    (expected : Option Tag) (found : Tag) {span : Span} (hspan : StandsIn nodes span) :
    AllCaused env nodes (checkArgument callee index expected found span) := by
  unfold checkArgument
  split
  · exact .nil
  · split
    · exact .nil
    · rename_i hrefused
      exact .single (.argument h hspan (by simp_all))

theorem resolveUnary_caused (op : UnaryOp) (found : Tag) {operand whole : Span}
    (hoperand : StandsIn nodes operand) (hwhole : StandsIn nodes whole) :
    AllCaused env nodes (resolveUnary op found operand whole).findings := by
  unfold resolveUnary
  split
  · exact .nil
  · split
    · exact .nil
    · exact .single (.operand hoperand hwhole ‹_› (.inl rfl))

theorem resolveBinary_caused (op : BinaryOp) (left right : Tag) {leftSpan rightSpan whole : Span}
    (hleft : StandsIn nodes leftSpan) (hright : StandsIn nodes rightSpan)
    (hwhole : StandsIn nodes whole) :
    AllCaused env nodes (resolveBinary op left right leftSpan rightSpan whole).findings := by
  unfold resolveBinary
  dsimp only
  split
  · exact .nil
  · rename_i hdefined
    obtain ⟨hl, hr⟩ := not_or.1 hdefined
    split
    · exact .single (.operand hleft hwhole hl (.inl rfl))
    · split
      · exact .single (.operand hright hwhole hr (.inl rfl))
      · split
        · -- Both operands are accepted, but not by one tag: the left one says what is expected.
          refine .single (.operand hright hwhole hr ?_)
          cases hnarrow : (op.rule.narrow? left).map Tag.name with
          | none => exact .inl rfl
          | some name => exact .inr ⟨left, hl, hnarrow⟩
        · exact .nil

theorem checkCondition_caused (found : Tag) {span : Span} (hspan : StandsIn nodes span) :
    AllCaused env nodes (checkCondition found span) := by
  unfold checkCondition
  split
  · exact .nil
  · rename_i hrefused
    exact .single (.condition hspan (by simpa using hrefused))

theorem resolveBranches_caused (expected : Option Tag) (consequent alternative : Tag)
    {consequentSpan alternativeSpan : Span} (hconsequent : StandsIn nodes consequentSpan)
    (halternative : StandsIn nodes alternativeSpan) :
    AllCaused env nodes (resolveBranches expected consequent alternative consequentSpan
      alternativeSpan).findings := by
  unfold resolveBranches
  dsimp only
  split
  · exact .nil
  · rename_i hdefined
    obtain ⟨hc, ha⟩ := not_or.1 hdefined
    have hmismatch : AllCaused env nodes
        [.branches consequent alternative consequentSpan alternativeSpan] :=
      .single (.branches hconsequent halternative hc ha)
    split
    · exact hmismatch
    · split
      · exact .nil
      · split
        · exact .nil
        · exact hmismatch

/-! ## Expressions -/

/-- Everything that the plan of a node reports has a cause in the node. -/
theorem Expr.plan_caused {e : Expr} (h : e.outline.nodes ⊆ nodes) (expected : Option Tag) :
    (e.plan env.scopes expected).Reports fun _ finding => finding.Caused env nodes := by
  have hspan := Expr.standsIn h
  have hparts : ∀ part ∈ e.parts, StandsIn nodes part.span := fun part hpart =>
    Expr.standsIn (Outline.parts_subset h _ (Expr.outline_mem_parts hpart))
  cases e with
  | literal value span => trivial
  | var name span =>
    have hname := Outline.parts_subset h name.outline (by simp [Expr.outline, Outline.parts])
    exact .conclude (resolveName_caused (Outline.mem_of_subset hname))
  | call callee arguments span =>
    have hname := Outline.parts_subset h callee.outline (by simp [Expr.outline, Outline.parts])
    have hcallee := Outline.mem_of_subset hname
    refine ⟨checkCallee_caused hcallee _ hspan, .ofArguments _ _ _ _ _ _ ?_⟩
    intro index argument hargument expected found
    exact checkArgument_caused hcallee _ _ _ (hparts argument (List.mem_of_getElem? hargument))
  | unary op operand span =>
    have hoperand := hparts operand (by simp [Expr.parts])
    exact fun found => .conclude (resolveUnary_caused op found hoperand hspan)
  | binary op left right span =>
    have hleft := hparts left (by simp [Expr.parts])
    have hright := hparts right (by simp [Expr.parts])
    exact fun first second => .conclude (resolveBinary_caused op first second hleft hright hspan)
  | conditional condition consequent alternative span =>
    have hcondition := hparts condition (by simp [Expr.parts])
    have hconsequent := hparts consequent (by simp [Expr.parts])
    have halternative := hparts alternative (by simp [Expr.parts])
    refine fun found => ⟨checkCondition_caused found hcondition, fun first second => .conclude ?_⟩
    split
    · exact resolveBranches_caused expected first second hconsequent halternative
    · exact AllCaused.nil

/-- Every finding on an expression has a cause in it. -/
theorem Expr.resolve_caused (e : Expr) :
    ∀ (expected : Option Tag) (depth : Nat) (flag : Bool), e.outline.nodes ⊆ nodes →
      AllCaused env nodes (e.resolve env expected depth flag).findings := by
  induction e using Expr.induction_parts with
  | h e ih =>
    intro expected depth flag h
    rcases Nat.lt_or_ge depth env.limit with hdepth | hdeep
    · rw [Expr.resolve_of_lt hdepth]
      apply (e.plan_through env.scopes expected).forall_findings (Expr.plan_caused h expected)
      intro part hpart expected flag
      exact ih part hpart expected (depth + 1) flag
        (Outline.parts_subset h _ (Expr.outline_mem_parts hpart))
    · rw [Expr.resolve_of_limit_le hdeep]
      unfold tooDeep
      dsimp only
      split
      · exact .nil
      · exact .single (.tooDeep (Expr.standsIn h))

/-! ## Items -/

theorem Ascription.resolve_caused {ascription : Ascription} (h : ascription.outline ∈ nodes) :
    AllCaused env nodes ascription.resolve.findings := by
  unfold Ascription.resolve
  split
  · exact .nil
  · exact .single (.unsupportedUnion h ‹_›)

theorem declareName_caused {name : Name} (h : name.outline ∈ nodes) (symbol : Symbol) :
    AllCaused env nodes (declareName env.scopes name symbol).findings := by
  unfold declareName Scopes.declare
  cases hfind : env.scopes.current.find? name.text with
  | some previous => exact .single (.duplicate h hfind)
  | none =>
    dsimp only
    cases hshadow : env.scopes.shadowed? name.text with
    | none => exact .nil
    | some span =>
      obtain ⟨outer, houter, rfl⟩ := Option.map_eq_some_iff.1 hshadow
      exact .single (.shadowed h houter)

theorem VarDecl.analyze_caused {declaration : VarDecl} (h : declaration.outline.nodes ⊆ nodes) :
    AllCaused env nodes (declaration.analyze env).findings := by
  have hparts := Outline.parts_subset h
  unfold VarDecl.outline Outline.parts at hparts
  obtain ⟨hname, hparts⟩ := List.forall_mem_cons.1 hparts
  obtain ⟨hascription, hinitializer⟩ := List.forall_mem_cons.1 hparts
  unfold VarDecl.analyze
  refine ((Ascription.resolve_caused (Outline.mem_of_subset hascription)).append ?_).append
    (declareName_caused (Outline.mem_of_subset hname) _)
  unfold VarDecl.checkInitializer
  split
  · exact .nil
  · rename_i e he
    rw [he] at hinitializer
    have hexpr := hinitializer e.outline (by simp)
    refine (Expr.resolve_caused e _ _ _ hexpr).append ?_
    split
    · exact .nil
    · rename_i hrefused
      exact .single (.initializer (Outline.mem_of_subset hname) (Expr.standsIn hexpr)
        (by simpa using hrefused))

theorem FnDecl.analyze_caused {declaration : FnDecl} (h : declaration.outline.nodes ⊆ nodes) :
    AllCaused env nodes (declaration.analyze env).findings := by
  have hparts := Outline.parts_subset h
  unfold FnDecl.outline Outline.parts at hparts
  obtain ⟨hname, hparts⟩ := List.forall_mem_cons.1 hparts
  obtain ⟨hparameters, hresult⟩ := List.forall_mem_append.1 hparts
  have hresult := Outline.mem_of_subset (hresult _ (List.mem_singleton_self _))
  unfold FnDecl.analyze
  refine ((Ascription.resolve_caused hresult).append ?_).append
    (declareName_caused (Outline.mem_of_subset hname) _)
  intro finding hfinding
  obtain ⟨ascription, hascription, hfinding⟩ := List.mem_flatMap.1 hfinding
  obtain ⟨parameter, hparameter, hsome⟩ := List.mem_filterMap.1 hascription
  have hmem : ascription.outline ∈ declaration.parameters.flatMap Parameter.outlines :=
    List.mem_flatMap.2 ⟨parameter, hparameter, by simp [Parameter.outlines, hsome]⟩
  exact Ascription.resolve_caused (Outline.mem_of_subset (hparameters _ hmem)) finding hfinding

/-- What is found at a visit has a cause in sight of it. -/
theorem Visit.caused (limit : Nat) {visit : Visit} (h : visit.item.outline.nodes ⊆ nodes) :
    AllCaused ⟨visit.scopes, limit⟩ nodes (visit.analysis limit).findings := by
  obtain ⟨item, scopes⟩ := visit
  cases item with
  | var declaration =>
    simp only [Visit.analysis, Item.analyze]
    exact declaration.analyze_caused h
  | fn declaration =>
    simp only [Visit.analysis, Item.analyze]
    exact declaration.analyze_caused h
  | block items span => exact .nil
  | expr e =>
    simp only [Visit.analysis, Item.analyze]
    exact e.resolve_caused _ _ _ h

end

/-! ## Programs -/

mutual

/-- The walk comes only to parts of the item. -/
theorem Item.visits_subset (env : Env) :
    ∀ item : Item, ∀ visit ∈ item.visits env, visit.item.outline.nodes ⊆ item.outline.nodes
  | .var _, visit, hvisit => by
    obtain rfl := List.mem_singleton.1 hvisit
    exact List.Subset.refl _
  | .fn _, visit, hvisit => by
    obtain rfl := List.mem_singleton.1 hvisit
    exact List.Subset.refl _
  | .block items span, visit, hvisit => by
    rw [Item.visits] at hvisit
    rcases List.mem_cons.1 hvisit with rfl | hvisit
    · exact List.Subset.refl _
    · intro node hnode
      have hbelow := visitItems_subset _ items visit hvisit hnode
      rw [Item.outline]
      exact Outline.mem_nodes.2 (.inr hbelow)
  | .expr _, visit, hvisit => by
    obtain rfl := List.mem_singleton.1 hvisit
    exact List.Subset.refl _

theorem visitItems_subset (env : Env) :
    ∀ items : List Item, ∀ visit ∈ visitItems env items,
      visit.item.outline.nodes ⊆ Outline.nodesOfEach (outlinesOfItems items)
  | [], visit, hvisit => by simp [visitItems] at hvisit
  | item :: rest, visit, hvisit => by
    rw [visitItems] at hvisit
    rw [outlinesOfItems, Outline.nodesOfEach]
    intro node hnode
    rcases List.mem_append.1 hvisit with hvisit | hvisit
    · exact List.mem_append_left _ (item.visits_subset env visit hvisit hnode)
    · exact List.mem_append_right _ (visitItems_subset _ rest visit hvisit hnode)

end

/-- What is declared has a name in the outline of its item. -/
theorem Item.outline_of_declared? {nodes : List Outline} {item : Item}
    (h : item.outline.nodes ⊆ nodes) {declared : Declaration}
    (hdeclared : item.declared? = some declared) : declared.name.outline ∈ nodes := by
  cases item with
  | var declaration =>
    obtain rfl := Option.some.inj hdeclared
    exact Outline.mem_of_subset (Outline.parts_subset h _ (by simp [Outline.parts,
      Item.outline, VarDecl.outline, VarDecl.declared]))
  | fn declaration =>
    obtain rfl := Option.some.inj hdeclared
    exact Outline.mem_of_subset (Outline.parts_subset h _ (by simp [Outline.parts,
      Item.outline, FnDecl.outline, FnDecl.declared]))
  | block items span => contradiction
  | expr e => contradiction

/-- The visits of the analysis of a program. -/
def Program.visits (program : Program) (limit : Nat) : List Visit :=
  visitItems ⟨.empty, limit⟩ program.items

/-- Only declarations of the program are ever in sight. -/
theorem Program.visits_all (program : Program) (limit : Nat) :
    ∀ visit ∈ program.visits limit, visit.scopes.All fun declaration =>
      ∃ visit ∈ program.visits limit, visit.item.declared? = some declaration :=
  visitItems_all ⟨.empty, limit⟩ (.empty _) program.items
    fun visit hvisit _ hdeclared => ⟨visit, hvisit, hdeclared⟩

/-- Every finding on a program has a cause at a visit, in the parts of the program. -/
theorem Program.analyze_caused (program : Program) (limit : Nat) :
    ∀ finding ∈ (program.analyze ⟨.empty, limit⟩).findings,
      ∃ visit ∈ program.visits limit, finding.Caused ⟨visit.scopes, limit⟩ program.nodes := by
  intro finding hfinding
  unfold Program.analyze at hfinding
  rw [(analyzeItems_visits ⟨.empty, limit⟩ program.items).1] at hfinding
  obtain ⟨visit, hvisit, hfinding⟩ := List.mem_flatMap.1 hfinding
  exact ⟨visit, hvisit,
    visit.caused limit (visitItems_subset _ program.items visit hvisit) finding hfinding⟩

end TagLang
