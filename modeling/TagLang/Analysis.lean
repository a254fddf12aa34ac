import TagLang.Resolution

/-!
# Analysis of programs

Items are analysed in order.  A declaration enters the current scope, a block has
a scope of its own, and an expression statement is resolved and its tag is
recorded.  An initializer is resolved before its variable is declared, so it sees
an outer variable of the same name.

Nothing stops the analysis: findings are collected, and what cannot be understood
has the tag `undefined`.
-/

namespace TagLang

/-- An expression statement and its tag. -/
structure Statement where
  span : Span
  tag : Tag
  deriving DecidableEq, Repr

/-- What the analysis of some items leaves: the scopes after them, the findings,
and the expression statements in source order. -/
structure Analysis where
  scopes : Scopes
  findings : List Finding
  statements : List Statement
  deriving DecidableEq, Repr

/-! ## Ascriptions -/

namespace Ascription

/-- The tag with the members of an ascription, joined from left to right. -/
def tag? (ascription : Ascription) : Option Tag :=
  match ascription.members with
  | [] => none
  | first :: rest => rest.foldlM (fun joined member => joined.join? member.tag) first.tag

/-- The tag of an ascription; one without a tag is reported. -/
def resolve (ascription : Ascription) : Verdict :=
  match ascription.tag? with
  | some tag => ⟨tag, []⟩
  | none => ⟨.undefined, [.unsupportedUnion ascription.span]⟩

end Ascription

/-! ## Declarations -/

/-- Declares a name.  A second declaration in one scope changes nothing and is
reported; one that hides an outer declaration is reported too. -/
def declareName (scopes : Scopes) (name : Name) (symbol : Symbol) : Analysis :=
  match scopes.declare name symbol with
  | .error duplicate => ⟨scopes, [.duplicate name duplicate.previous], []⟩
  | .ok declared =>
    match scopes.shadowed? name.text with
    | some outer => ⟨declared, [.shadowed name outer], []⟩
    | none => ⟨declared, [], []⟩

namespace VarDecl

/-- Whether the initializer fits the declared tag. -/
def checkInitializer (env : Env) (declaration : VarDecl) (declared : Tag) : List Finding :=
  match declaration.initializer with
  | none => []
  | some e =>
    let outcome := e.resolve env (some declared) 0 false
    outcome.findings ++
      if declared.accepts outcome.tag then []
      else [.initializer declaration.name.text declared outcome.tag e.span]

/-- Analyses the declaration of a variable. -/
def analyze (env : Env) (declaration : VarDecl) : Analysis :=
  let declared := declaration.ascription.resolve
  let after := declareName env.scopes declaration.name (.value declared.tag)
  { after with
    findings := declared.findings ++ declaration.checkInitializer env declared.tag ++
      after.findings }

end VarDecl

namespace FnDecl

/-- The ascriptions of the parameters that have one. -/
def ascriptions (declaration : FnDecl) : List Ascription :=
  declaration.parameters.filterMap (·.ascription)

/-- What is known of the parameters: their tags when each one has an ascription. -/
def knownParameters (declaration : FnDecl) : Parameters :=
  if declaration.parameters.all (·.ascription.isSome) then
    .tagged (declaration.ascriptions.map (·.resolve.tag))
  else .counted declaration.parameters.length

/-- Analyses the declaration of a function. -/
def analyze (env : Env) (declaration : FnDecl) : Analysis :=
  let result := declaration.result.resolve
  let signature : Signature := ⟨declaration.knownParameters, result.tag⟩
  let after := declareName env.scopes declaration.name (.function signature)
  { after with
    findings := result.findings ++ declaration.ascriptions.flatMap (·.resolve.findings) ++
      after.findings }

end FnDecl

/-! ## Items -/

mutual

/-- Analyses one item. -/
def Item.analyze (env : Env) : Item → Analysis
  | .var declaration => declaration.analyze env
  | .fn declaration => declaration.analyze env
  | .block items _ =>
    let inner := analyzeItems { env with scopes := env.scopes.enter } items
    { inner with scopes := inner.scopes.exit }
  | .expr e =>
    let outcome := e.resolve env none 0 false
    ⟨env.scopes, outcome.findings, [⟨e.span, outcome.tag⟩]⟩

/-- Analyses items one after the other. -/
def analyzeItems (env : Env) : List Item → Analysis
  | [] => ⟨env.scopes, [], []⟩
  | item :: rest =>
    let first := item.analyze env
    let others := analyzeItems { env with scopes := first.scopes } rest
    ⟨others.scopes, first.findings ++ others.findings, first.statements ++ others.statements⟩

end

/-- Analyses a program. -/
def Program.analyze (env : Env) (program : Program) : Analysis :=
  analyzeItems env program.items

end TagLang
