import TagLang.Proofs.Absorption
import TagLang.Proofs.Causes
import TagLang.Proofs.WellTyped
import TagLang.Text.Location

/-!
# Errors that follow from errors

The tag `undefined` stands for an error that has been reported.  This module says how far
the analysis keeps silent about it afterwards.

* `Finding.tags` are the tags that a finding is about, and `Quotes` says that a text has a
  word in back quotes, which is how messages write a tag.
* `Finding.Caused.definite` and `Finding.Caused.unquoted` read off the causes that neither
  of them is ever `undefined`, with one exception.
* The exception is the call of a variable whose ascription was rejected, `callsRejected`.
  `Program.rejected_of_callsRejected` finds the rejected ascription.
* `Program.analyze_relaxed` compares with the program in which the rejected ascriptions
  are `any`: apart from the exception, rejecting an ascription adds its own report only.

`check_silent_about_undefined` is the result for sources, and `check_reports_rejected_call`
shows that the exception occurs.
-/

namespace TagLang

/-! ## Tags of findings -/

/-- The tags that a finding is about. -/
def Finding.tags : Finding → List Tag
  | notCallable _ found => [found]
  | argument _ _ expected found _ => [expected, found]
  | operand _ _ found _ _ => [found]
  | branches consequent alternative _ _ => [consequent, alternative]
  | condition found _ => [found]
  | initializer _ expected found _ => [expected, found]
  | _ => []

/-- The call of a variable whose tag is not known. -/
def Finding.callsRejected : Finding → Bool
  | notCallable _ .undefined => true
  | _ => false

/-- Tags that do not fit are known. -/
theorem Tag.ne_undefined_of_accepts_eq_false {expected found : Tag}
    (h : expected.accepts found = false) : expected ≠ .undefined ∧ found ≠ .undefined := by
  constructor
  · rintro rfl
    rw [Tag.undefined_accepts] at h
    contradiction
  · rintro rfl
    rw [Tag.accepts_undefined] at h
    contradiction

/-- A finding is not about `undefined`, unless it is the call of a rejected variable. -/
theorem Finding.Caused.definite {env : Env} {nodes : List Outline} {finding : Finding}
    (h : finding.Caused env nodes) (hcall : finding.callsRejected = false) :
    .undefined ∉ finding.tags := by
  cases h with
  | notCallable _ _ =>
    rename_i kind _ _
    cases kind <;> simp_all [Finding.tags, Finding.callsRejected]
  | argument _ _ hrefused | initializer _ _ hrefused =>
    obtain ⟨hexpected, hfound⟩ := Tag.ne_undefined_of_accepts_eq_false hrefused
    simp [Finding.tags, hexpected.symm, hfound.symm]
  | condition _ hrefused =>
    simp [Finding.tags, (Tag.ne_undefined_of_accepts_eq_false hrefused).2.symm]
  | operand _ _ hfound _ => simp [Finding.tags, hfound.symm]
  | branches _ _ hconsequent halternative =>
    simp [Finding.tags, hconsequent.symm, halternative.symm]
  | undeclared _ _ | functionAsValue _ _ | arity _ _ _ _ | tooDeep _ | unsupportedUnion _ _
  | duplicate _ _ | shadowed _ _ => simp [Finding.tags]

/-! ## Words in back quotes -/

/-- The text has the word in back quotes. -/
def Quotes (text word : String) : Prop :=
  ("`" ++ word ++ "`").toList <:+: text.toList

instance (text word : String) : Decidable (Quotes text word) :=
  inferInstanceAs (Decidable (_ <:+: _))

/-- No part of the text between back quotes, or before or after all of them, is the name of
`undefined`. -/
def Unquoted (text : String) : Prop :=
  Tag.undefined.name.toList ∉ text.toList.splitOn '`'

instance (text : String) : Decidable (Unquoted text) :=
  inferInstanceAs (Decidable (_ ∉ _))

theorem Unquoted.not_quotes {text : String} (h : Unquoted text) :
    ¬Quotes text Tag.undefined.name := by
  rintro ⟨before, after, heq⟩
  have hsplit : text.toList =
      before ++ '`' :: (Tag.undefined.name.toList ++ '`' :: after) := by
    rw [← heq]
    simp
  have hname : Tag.undefined.name.toList.splitOn '`' = [Tag.undefined.name.toList] :=
    List.splitOn_eq_singleton (by decide)
  apply h
  rw [hsplit, List.splitOn_append_cons_self, List.splitOn_append_cons_self, hname]
  simp

/-- Texts on the two sides of a back quote. -/
theorem Unquoted.tick {first second : String} (hfirst : Unquoted first)
    (hsecond : Unquoted second) : Unquoted (first ++ ("`" ++ second)) := by
  unfold Unquoted at *
  have hsplit : (first ++ ("`" ++ second)).toList = first.toList ++ '`' :: second.toList := by
    simp
  rw [hsplit, List.splitOn_append_cons_self, List.mem_append]
  exact not_or.2 ⟨hfirst, hsecond⟩

/-- A text without back quotes that is not the word itself. -/
theorem Unquoted.plain {text : String} (htick : '`' ∉ text.toList)
    (hne : text ≠ Tag.undefined.name) : Unquoted text := by
  unfold Unquoted
  rw [List.splitOn_eq_singleton htick, List.mem_singleton]
  exact fun h => hne (String.toList_inj.1 h.symm)

/-- A text with a blank and without back quotes. -/
theorem Unquoted.phrase {text : String} (htick : '`' ∉ text.toList) (hblank : ' ' ∈ text.toList) :
    Unquoted text := by
  refine .plain htick ?_
  rintro rfl
  revert hblank
  decide

/-- A text without back quotes that ends in a phrase. -/
theorem Unquoted.ending {first second : String} (hfirst : '`' ∉ first.toList)
    (hsecond : '`' ∉ second.toList) (hblank : ' ' ∈ second.toList) :
    Unquoted (first ++ second) :=
  .phrase (by simp [hfirst, hsecond]) (by simp [hblank])

theorem Unquoted.tag {tag : Tag} (h : tag ≠ .undefined) : Unquoted tag.name := by
  revert h
  cases tag <;> decide

/-! ## The texts of findings -/

/-- All texts of a diagnostic. -/
def Diagnostic.texts (diagnostic : Diagnostic) : List String :=
  diagnostic.message :: diagnostic.labels.map (·.message) ++ diagnostic.notes

theorem toString_text (text : String) : toString text = text := rfl

theorem Code.unquoted_title (code : Code) : Unquoted code.title := by
  cases code <;> decide +kernel

/-- What is expected and what was found, for arguments and initializers. -/
theorem unquoted_expectedType {expected found : String} (hexpected : Unquoted expected)
    (hfound : Unquoted found) :
    Unquoted (s!"Expected type `{expected}`, but found type `{found}`") := by
  -- The text is cut open at its back quotes, so that each part can be looked at alone.
  have heq : s!"Expected type `{expected}`, but found type `{found}`" =
      "Expected type " ++ ("`" ++ (expected ++ ("`" ++
        (", but found type " ++ ("`" ++ (found ++ ("`" ++ ""))))))) := by
    simp [← String.toList_inj, toString_text]
  rw [heq]
  exact .tick (by decide) (.tick hexpected (.tick (by decide) (.tick hfound (by decide))))

/-- What is expected and what was found, for operands and conditions. -/
theorem unquoted_expected {expected found : String} (hexpected : Unquoted expected)
    (hfound : Unquoted found) : Unquoted (s!"Expected `{expected}`, but found `{found}`") := by
  have heq : s!"Expected `{expected}`, but found `{found}`" =
      "Expected " ++ ("`" ++ (expected ++ ("`" ++
        (", but found " ++ ("`" ++ (found ++ ("`" ++ ""))))))) := by
    simp [← String.toList_inj, toString_text]
  rw [heq]
  exact .tick (by decide) (.tick hexpected (.tick (by decide) (.tick hfound (by decide))))

theorem unquoted_branch {tag : Tag} (h : tag ≠ .undefined) :
    Unquoted (s!"this branch has type `{tag.name}`") := by
  have heq : s!"this branch has type `{tag.name}`" =
      "this branch has type " ++ ("`" ++ (tag.name ++ ("`" ++ ""))) := by
    simp [← String.toList_inj, toString_text]
  rw [heq]
  exact .tick (by decide) (.tick (.tag h) (by decide))

theorem Rule.unquoted_describe (operator : Operator) : Unquoted operator.rule.describe := by
  rcases operator with op | op <;> cases op <;> decide +kernel

/-- What an operand is narrowed to is known. -/
theorem Rule.narrow?_ne_undefined (operator : Operator) {tag : Tag} (h : tag ≠ .undefined) :
    operator.rule.narrow? tag ≠ some .undefined := by
  revert h
  rcases operator with op | op <;> cases op <;> cases tag <;> decide

theorem Operator.unquoted_symbol (operator : Operator) : Unquoted operator.symbol := by
  rcases operator with op | op <;> cases op <;> decide

section

variable {env : Env} {nodes : List Outline} {finding : Finding}

/-- The words of the nodes have no back quotes. -/
def Tickless (nodes : List Outline) : Prop :=
  ∀ node ∈ nodes, ∀ word, node.word? = some word → '`' ∉ word.toList

theorem Tickless.name (h : Tickless nodes) {name : Name} (hname : name.outline ∈ nodes) :
    '`' ∉ name.text.toList :=
  h name.outline hname name.text rfl

theorem Finding.Caused.unquoted_message (h : finding.Caused env nodes) (hwords : Tickless nodes) :
    Unquoted finding.message := by
  cases h with
  | @argument name index expected found span hname _ _ =>
    refine .ending ?_ (by decide) (by decide)
    simp [toString_text, hwords.name hname, @Text.not_mem_toDigits '`' rfl]
  | @operand operator expected found place whole _ _ hfound _ =>
    have heq : s!"Operator `{operator.symbol}` cannot be applied to `{found.name}`" =
        "Operator " ++ ("`" ++ (operator.symbol ++ ("`" ++
          (" cannot be applied to " ++ ("`" ++ (found.name ++ ("`" ++ ""))))))) := by
      simp [← String.toList_inj, toString_text]
    show Unquoted (s!"Operator `{operator.symbol}` cannot be applied to `{found.name}`")
    rw [heq]
    exact .tick (by decide) (.tick operator.unquoted_symbol
      (.tick (by decide) (.tick (.tag hfound) (by decide))))
  | @initializer name expected found span hname _ hrefused =>
    have heq : s!"Cannot initialize '{name.text}' with a value of type `{found.name}`" =
        "Cannot initialize '" ++ name.text ++ "' with a value of type " ++
          ("`" ++ (found.name ++ ("`" ++ ""))) := by
      simp [← String.toList_inj, toString_text]
    show Unquoted (s!"Cannot initialize '{name.text}' with a value of type `{found.name}`")
    rw [heq]
    refine .tick (.phrase (by simp [hwords.name hname]) (by simp)) (.tick (.tag ?_) (by decide))
    exact (Tag.ne_undefined_of_accepts_eq_false hrefused).2
  | _ => exact Code.unquoted_title _

theorem Finding.Caused.unquoted_primary (h : finding.Caused env nodes) (hwords : Tickless nodes)
    (hcall : finding.callsRejected = false) : Unquoted finding.primary.message := by
  cases h with
  | undeclared hname _ | duplicate hname _ | shadowed hname _ =>
    refine .ending ?_ (by decide) (by decide)
    simp [toString_text, hwords.name hname]
  | @functionAsValue name signature hname _ =>
    have heq : s!"'{name.text}' is a function; call it with `(...)`" =
        "'" ++ name.text ++ "' is a function; call it with " ++
          ("`" ++ ("(...)" ++ ("`" ++ ""))) := by
      simp [← String.toList_inj, toString_text]
    show Unquoted (s!"'{name.text}' is a function; call it with `(...)`")
    rw [heq]
    exact .tick (.ending (by simp [hwords.name hname]) (by decide) (by decide)) (by decide)
  | @notCallable name kind hname _ =>
    have hkind : kind ≠ .undefined := by
      rintro rfl
      contradiction
    have heq : s!"'{name.text}' has type `{kind.name}` and cannot be called" =
        "'" ++ name.text ++ "' has type " ++
          ("`" ++ (kind.name ++ ("`" ++ " and cannot be called"))) := by
      simp [← String.toList_inj, toString_text]
    show Unquoted (s!"'{name.text}' has type `{kind.name}` and cannot be called")
    rw [heq]
    exact .tick (.ending (by simp [hwords.name hname]) (by decide) (by decide))
      (.tick (.tag hkind) (by decide))
  | arity hname _ _ _ =>
    refine .ending ?_ (by decide) (by decide)
    simp [toString_text, hwords.name hname, @Text.not_mem_toDigits '`' rfl]
  | argument _ _ hrefused | initializer _ _ hrefused =>
    obtain ⟨hexpected, hfound⟩ := Tag.ne_undefined_of_accepts_eq_false hrefused
    exact unquoted_expectedType (.tag hexpected) (.tag hfound)
  | @operand operator expected found place whole _ _ hfound htext =>
    refine unquoted_expected ?_ (.tag hfound)
    rcases htext with rfl | ⟨other, hother, hnarrow⟩
    · exact Rule.unquoted_describe operator
    · obtain ⟨tag, htag, rfl⟩ := Option.map_eq_some_iff.1 hnarrow
      refine .tag ?_
      rintro rfl
      exact Rule.narrow?_ne_undefined operator hother htag
  | branches _ _ _ halternative => exact unquoted_branch halternative
  | @condition found span _ hrefused =>
    have heq : (Finding.condition found span).primary.message =
        s!"Expected `{Tag.bool.name}`, but found `{found.name}`" := by
      simp [Finding.primary, Tag.name, toString_text]
    rw [heq]
    exact unquoted_expected (by decide)
      (.tag (Tag.ne_undefined_of_accepts_eq_false hrefused).2)
  | tooDeep _ =>
    refine .phrase ?_ ?_
    · simp [Finding.primary, toString_text, @Text.not_mem_toDigits '`' rfl]
    · simp only [Finding.primary, String.toList_append]
      exact List.mem_append_left _ (by decide)
  | unsupportedUnion _ _ =>
    show Unquoted "no type tag covers all of these members"
    decide

theorem Finding.Caused.unquoted_secondary (h : finding.Caused env nodes) :
    ∀ label ∈ finding.secondary, Unquoted label.message := by
  cases h with
  | @operand operator _ _ _ _ _ _ _ _ =>
    have heq : s!"in this `{operator.symbol}` expression" =
        "in this " ++ ("`" ++ (operator.symbol ++ ("`" ++ " expression"))) := by
      simp [← String.toList_inj, toString_text]
    refine List.forall_mem_singleton.2 ?_
    show Unquoted (s!"in this `{operator.symbol}` expression")
    rw [heq]
    exact .tick (by decide) (.tick operator.unquoted_symbol (by decide))
  | branches _ _ hconsequent _ =>
    exact List.forall_mem_singleton.2 (unquoted_branch hconsequent)
  | duplicate _ _ =>
    refine List.forall_mem_singleton.2 ?_
    show Unquoted "previous declaration is here"
    decide
  | shadowed _ _ =>
    refine List.forall_mem_singleton.2 ?_
    show Unquoted "outer declaration is here"
    decide
  | _ => exact List.forall_mem_nil _

theorem Finding.unquoted_notes (finding : Finding) : ∀ note ∈ finding.notes, Unquoted note := by
  cases finding with
  | branches _ _ _ _ =>
    refine List.forall_mem_singleton.2 ?_
    decide
  | _ => exact List.forall_mem_nil _

/-- No text of a finding quotes `undefined`, unless it is the call of a rejected
variable. -/
theorem Finding.Caused.unquoted (h : finding.Caused env nodes) (hwords : Tickless nodes)
    (hcall : finding.callsRejected = false) :
    ∀ text ∈ finding.diagnostic.texts, ¬Quotes text Tag.undefined.name := by
  intro text htext
  apply Unquoted.not_quotes
  rcases List.mem_append.1 htext with htext | hnote
  · rcases List.mem_cons.1 htext with rfl | hlabel
    · exact h.unquoted_message hwords
    · obtain ⟨label, hmem, rfl⟩ := List.mem_map.1 hlabel
      rcases List.mem_cons.1 hmem with rfl | hmem
      · exact h.unquoted_primary hwords hcall
      · exact h.unquoted_secondary label hmem
  · exact finding.unquoted_notes text hnote

end

/-! ## Programs -/

/-- The names and numbers of a program that was read from a source have no back quotes. -/
theorem tickless_of_program {source : String} {program : Program}
    (h : Program.ofTokens source.utf8ByteSize (tokens source) = .ok program) :
    Tickless program.nodes := by
  intro node hnode word hword htick
  have hsited := Program.sited_of_mem_nodes h (ordered_tokens source) node hnode
  obtain ⟨t, ht, -, htoken⟩ := hsited.word word hword
  have hpart := (holds_of_mem_tokens ht htoken).2 '`' htick
  contradiction

/-- An ascription has the tag `undefined` only if it is rejected. -/
theorem Ascription.tag?_of_resolve {ascription : Ascription}
    (h : ascription.resolve.tag = .undefined) : ascription.tag? = none := by
  cases htag : ascription.tag? with
  | none => rfl
  | some tag =>
    obtain ⟨hdenotes, hfew⟩ := (ascription.tag?_eq_some_iff tag).1 htag
    rw [Ascription.resolve_of_denotes hdenotes hfew] at h
    exact absurd h (Tag.ne_undefined_of_mem_values hdenotes.mem_values)

/-- What is declared as a value without a known tag is a variable with a rejected
ascription. -/
theorem Item.rejected_of_declared? {item : Item} {declared : Declaration}
    (hdeclared : item.declared? = some declared) (hsymbol : declared.symbol = .value .undefined) :
    ∃ declaration, item = .var declaration ∧ declaration.name = declared.name ∧
      declaration.ascription.tag? = none := by
  cases item with
  | var declaration =>
    obtain rfl := Option.some.inj hdeclared
    exact ⟨declaration, rfl, rfl, Ascription.tag?_of_resolve (Symbol.value.inj hsymbol)⟩
  | fn declaration =>
    obtain rfl := Option.some.inj hdeclared
    contradiction
  | block items span => contradiction
  | expr e => contradiction

/-- A rejected ascription is reported. -/
theorem Program.mem_findings_of_rejected {program : Program} {limit : Nat} {visit : Visit}
    (hvisit : visit ∈ program.visits limit) {declaration : VarDecl}
    (hitem : visit.item = .var declaration) (hrejected : declaration.ascription.tag? = none) :
    .unsupportedUnion declaration.ascription.span ∈
      (program.analyze ⟨.empty, limit⟩).findings := by
  unfold Program.analyze
  rw [(analyzeItems_visits ⟨.empty, limit⟩ program.items).1]
  refine List.mem_flatMap.2 ⟨visit, hvisit, ?_⟩
  simp [Visit.analysis, hitem, Item.analyze, VarDecl.analyze, Ascription.resolve, hrejected]

/-- The call of a variable without a known tag goes back to a rejected ascription. -/
theorem Program.rejected_of_callsRejected {program : Program} {limit : Nat} {name : Name}
    (h : .notCallable name .undefined ∈ (program.analyze ⟨.empty, limit⟩).findings) :
    ∃ visit ∈ program.visits limit, ∃ declaration, visit.item = .var declaration ∧
      declaration.name.text = name.text ∧ declaration.ascription.tag? = none := by
  obtain ⟨visit, hvisit, hcaused⟩ := program.analyze_caused limit _ h
  cases hcaused with
  | notCallable _ hsymbol =>
    obtain ⟨declared, hfind, hvalue⟩ := Option.map_eq_some_iff.1 hsymbol
    obtain ⟨⟨origin, horigin, hdeclared⟩, htext⟩ :=
      (program.visits_all limit visit hvisit).find? hfind
    obtain ⟨declaration, hitem, hname, hrejected⟩ := Item.rejected_of_declared? hdeclared hvalue
    exact ⟨origin, horigin, declaration, hitem, by rw [hname, htext], hrejected⟩

/-! ## Rejected ascriptions as `any` -/

/-- The ascription, or `any` where it is rejected. -/
def Ascription.relaxed (ascription : Ascription) : Ascription :=
  match ascription.tag? with
  | some _ => ascription
  | none => ⟨[.any], ascription.span⟩

/-- The program with `any` for its rejected ascriptions. -/
def Program.relaxed (program : Program) : Program :=
  { program with items := rereadItems Ascription.relaxed program.items }

/-- The finding is neither the report of a rejected ascription nor the call of a rejected
variable. -/
def Finding.besidesRejection (finding : Finding) : Bool :=
  !finding.callsRejected && finding.code ≠ .unsupportedUnion

theorem Ascription.tag?_relaxed (ascription : Ascription) : ascription.relaxed.tag? ≠ none := by
  unfold Ascription.relaxed
  cases htag : ascription.tag? with
  | some tag => simp [htag]
  | none => simp [Ascription.tag?]

theorem Ascription.lenient_relaxed : Lenient Finding.besidesRejection Ascription.relaxed := by
  constructor
  · intro ascription
    unfold Ascription.relaxed
    cases htag : ascription.tag? with
    | some tag => exact .refl _
    | none => exact .inr ⟨by rw [Ascription.resolve, htag], rfl, fun _ => rfl⟩
  · intro ascription
    unfold Ascription.relaxed
    cases htag : ascription.tag? with
    | some tag => exact .refl _
    | none =>
      rw [Ascription.resolve, htag]
      exact List.nil_sublist _

/-- Besides the report of a rejected ascription and the calls of a rejected variable,
rejecting adds nothing to what is found with `any` in its place. -/
theorem Program.analyze_relaxed (program : Program) (limit : Nat) :
    FoundIn Finding.besidesRejection (program.analyze ⟨.empty, limit⟩).findings
      (program.relaxed.analyze ⟨.empty, limit⟩).findings :=
  (analyzeItems_vaguer Ascription.lenient_relaxed program.items
    ⟨Nat.le_refl limit, .refl .empty⟩ (.inr ⟨rfl, rfl⟩)).findings

/-! ## Sources -/

/-- The analysis keeps silent about what it already reported, with one exception.  Of the
findings that become the diagnostics of a source, none is about `undefined` and no text
quotes it, besides calls of variables that have no known tag.  Such a call goes back to a
rejected ascription, which has its own report.  Everything else that is found would be
found with `any` in place of the rejected ascriptions too. -/
theorem check_silent_about_undefined {limit : Nat} {source : String} {program : Program}
    (h : (Log.empty.parse limit source).1 = some program) :
    (check limit source).log.diagnostics =
      (program.analyze ⟨.empty, limit⟩).findings.map Finding.diagnostic ∧
    (∀ finding ∈ (program.analyze ⟨.empty, limit⟩).findings,
      finding.callsRejected = false →
      .undefined ∉ finding.tags ∧
        ∀ text ∈ finding.diagnostic.texts, ¬Quotes text Tag.undefined.name) ∧
    (∀ name, .notCallable name .undefined ∈ (program.analyze ⟨.empty, limit⟩).findings →
      ∃ visit ∈ program.visits limit, ∃ declaration, visit.item = .var declaration ∧
        declaration.name.text = name.text ∧ declaration.ascription.tag? = none ∧
        .unsupportedUnion declaration.ascription.span ∈
          (program.analyze ⟨.empty, limit⟩).findings) ∧
    (∀ ascription : Ascription, ascription.relaxed.tag? ≠ none) ∧
    FoundIn Finding.besidesRejection (program.analyze ⟨.empty, limit⟩).findings
      (program.relaxed.analyze ⟨.empty, limit⟩).findings := by
  obtain ⟨hdeep, hread, hstrays, -⟩ := Log.parse_eq_some_iff.1 h
  have hwords := tickless_of_program hread
  refine ⟨?_, ?_, ?_, Ascription.tag?_relaxed, program.analyze_relaxed limit⟩
  · rw [check_of_program hdeep hread hstrays]
  · intro finding hfinding hcall
    obtain ⟨visit, -, hcaused⟩ := program.analyze_caused limit finding hfinding
    exact ⟨hcaused.definite hcall, hcaused.unquoted hwords hcall⟩
  · intro name hcalled
    obtain ⟨visit, hvisit, declaration, hitem, hname, hrejected⟩ :=
      Program.rejected_of_callsRejected hcalled
    exact ⟨visit, hvisit, declaration, hitem, hname, hrejected,
      Program.mem_findings_of_rejected hvisit hitem hrejected⟩

/-- A rejected variable may be used, but not called, without a further report. -/
theorem check_silent_about_undefined_call :
    ∃ program, (Log.empty.parse 8 "var x: int|str|bool; -x; x(); -\"s\";").1 = some program ∧
      (program.analyze ⟨.empty, 8⟩).findings.map Finding.tags = [[], [.undefined], [.str]] ∧
      (check 8 "var x: int|str|bool; -x; x(); -\"s\";").log.diagnostics =
        (program.analyze ⟨.empty, 8⟩).findings.map Finding.diagnostic ∧
      (∀ finding ∈ (program.analyze ⟨.empty, 8⟩).findings,
        finding.callsRejected = false →
        .undefined ∉ finding.tags ∧
          ∀ text ∈ finding.diagnostic.texts, ¬Quotes text Tag.undefined.name) ∧
      (∀ name, .notCallable name .undefined ∈ (program.analyze ⟨.empty, 8⟩).findings →
        ∃ visit ∈ program.visits 8, ∃ declaration, visit.item = .var declaration ∧
          declaration.name.text = name.text ∧ declaration.ascription.tag? = none ∧
          .unsupportedUnion declaration.ascription.span ∈
            (program.analyze ⟨.empty, 8⟩).findings) ∧
      (∀ ascription : Ascription, ascription.relaxed.tag? ≠ none) ∧
      FoundIn Finding.besidesRejection (program.analyze ⟨.empty, 8⟩).findings
        (program.relaxed.analyze ⟨.empty, 8⟩).findings := by
  have htags : (Log.empty.parse 8 "var x: int|str|bool; -x; x(); -\"s\";").1.map
      (fun program => (program.analyze ⟨.empty, 8⟩).findings.map Finding.tags) =
        some [[], [.undefined], [.str]] := by decide +kernel
  obtain ⟨program, hprogram, htags⟩ := Option.map_eq_some_iff.1 htags
  exact ⟨program, hprogram, htags, check_silent_about_undefined hprogram⟩

/-- The call of a rejected variable is reported, and the report is about `undefined`. -/
theorem check_reports_rejected_call :
    ∃ diagnostic ∈ (check defaultLimit "var x: int|str|bool; x();").log.diagnostics,
      diagnostic.code = .notCallable ∧ Quotes diagnostic.primary.message Tag.undefined.name := by
  decide +kernel

end TagLang
