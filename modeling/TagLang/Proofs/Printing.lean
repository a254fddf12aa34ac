import TagLang.Proofs.Parsing
import TagLang.Proofs.Stages
import TagLang.Proofs.Writing

/-!
# Parsing undoes printing

The text of a program is read as that program again, up to the spans.

* `Program.writable` are the programs that have a text: their names and numbers can be
  written, and their ascriptions are not empty.
* `Program.bare` is a program without its spans.
* `Expr.PrintsBack` says that the grammar reads the tokens of an expression as this
  expression.  It holds before every rest, unless the text ends in an alternative: then
  the rest has to end the expression.
* `parse_render` is the result for programs.
-/

namespace TagLang

/-! ## Programs that can be written -/

/-- Whether a literal can be written. -/
def Literal.writable : Literal → Bool
  | int digits => isNumeral digits
  | _ => true

mutual

/-- Whether the names and numbers of an expression can be written. -/
def Expr.writable : Expr → Bool
  | .literal value _ => value.writable
  | .var name _ => isName name.text
  | .call callee arguments _ => isName callee.text && writableEach arguments
  | .unary _ operand _ => operand.writable
  | .binary _ left right _ => left.writable && right.writable
  | .conditional condition consequent alternative _ =>
    condition.writable && (consequent.writable && alternative.writable)

/-- Whether each of some expressions can be written. -/
def writableEach : List Expr → Bool
  | [] => true
  | e :: rest => e.writable && writableEach rest

end

/-- Whether an ascription names a type at all. -/
def Ascription.writable (ascription : Ascription) : Bool :=
  !ascription.members.isEmpty

/-- Whether a parameter can be written. -/
def Parameter.writable (parameter : Parameter) : Bool :=
  isName parameter.name.text && parameter.ascription.all Ascription.writable

/-- Whether the declaration of a variable can be written. -/
def VarDecl.writable (declaration : VarDecl) : Bool :=
  isName declaration.name.text &&
    (declaration.ascription.writable && declaration.initializer.all Expr.writable)

/-- Whether the declaration of a function can be written. -/
def FnDecl.writable (declaration : FnDecl) : Bool :=
  isName declaration.name.text &&
    (declaration.parameters.all Parameter.writable && declaration.result.writable)

mutual

/-- Whether an item can be written. -/
def Item.writable : Item → Bool
  | .var declaration => declaration.writable
  | .fn declaration => declaration.writable
  | .block items _ => writableItems items
  | .expr e => e.writable

/-- Whether each of some items can be written. -/
def writableItems : List Item → Bool
  | [] => true
  | item :: rest => item.writable && writableItems rest

end

/-- Whether a program can be written. -/
def Program.writable (program : Program) : Bool :=
  writableItems program.items

/-! ## Programs without spans -/

/-- A name without its span. -/
def Name.bare (name : Name) : Name :=
  ⟨name.text, .point 0⟩

/-- An ascription without its span. -/
def Ascription.bare (ascription : Ascription) : Ascription :=
  ⟨ascription.members, .point 0⟩

/-- A parameter without its spans. -/
def Parameter.bare (parameter : Parameter) : Parameter :=
  ⟨parameter.name.bare, parameter.ascription.map Ascription.bare⟩

mutual

/-- An expression without its spans. -/
def Expr.bare : Expr → Expr
  | .literal value _ => .literal value (.point 0)
  | .var name _ => .var name.bare (.point 0)
  | .call callee arguments _ => .call callee.bare (bareEach arguments) (.point 0)
  | .unary op operand _ => .unary op operand.bare (.point 0)
  | .binary op left right _ => .binary op left.bare right.bare (.point 0)
  | .conditional condition consequent alternative _ =>
    .conditional condition.bare consequent.bare alternative.bare (.point 0)

/-- Expressions without their spans. -/
def bareEach : List Expr → List Expr
  | [] => []
  | e :: rest => e.bare :: bareEach rest

end

/-- The declaration of a variable without its spans. -/
def VarDecl.bare (declaration : VarDecl) : VarDecl :=
  ⟨declaration.name.bare, declaration.ascription.bare, declaration.initializer.map Expr.bare,
    .point 0⟩

/-- The declaration of a function without its spans. -/
def FnDecl.bare (declaration : FnDecl) : FnDecl :=
  ⟨declaration.name.bare, declaration.parameters.map Parameter.bare, declaration.result.bare,
    .point 0⟩

mutual

/-- An item without its spans. -/
def Item.bare : Item → Item
  | .var declaration => .var declaration.bare
  | .fn declaration => .fn declaration.bare
  | .block items _ => .block (bareItems items) (.point 0)
  | .expr e => .expr e.bare

/-- Items without their spans. -/
def bareItems : List Item → List Item
  | [] => []
  | item :: rest => item.bare :: bareItems rest

end

/-- A program without its spans. -/
def Program.bare (program : Program) : Program :=
  ⟨bareItems program.items, .point 0⟩

/-! ## The tokens can be written -/

/-- Whether each of some tokens can be written. -/
def writableTokens (ts : List Token) : Bool :=
  ts.all Token.writable

@[simp]
theorem writableTokens_nil : writableTokens [] = true := rfl

@[simp]
theorem writableTokens_cons (token : Token) (rest : List Token) :
    writableTokens (token :: rest) = (token.writable && writableTokens rest) := rfl

@[simp]
theorem writableTokens_append (ts us : List Token) :
    writableTokens (ts ++ us) = (writableTokens ts && writableTokens us) :=
  List.all_append

@[simp]
theorem writableTokens_parenthesize (needed : Bool) (ts : List Token) :
    writableTokens (parenthesize needed ts) = writableTokens ts := by
  cases needed <;> simp [parenthesize, Token.writable]

theorem writableTokens_commaSeparated (lists : List (List Token)) :
    writableTokens (commaSeparated lists) = lists.all writableTokens := by
  induction lists with
  | nil => rfl
  | cons ts lists ih =>
    cases lists with
    | nil => simp [commaSeparated]
    | cons us lists => simp_all [commaSeparated, Token.writable]

theorem writableTokens_barSeparated (members : List Base) :
    writableTokens (barSeparated members) = true := by
  induction members with
  | nil => rfl
  | cons base members ih =>
    cases members with
    | nil => rfl
    | cons base' members => simpa [barSeparated, Token.writable] using ih

@[simp]
theorem Literal.writable_token (value : Literal) : value.token.writable = value.writable := by
  cases value <;> rfl

@[simp]
theorem UnaryOp.writable_token (op : UnaryOp) : op.token.writable = true := by
  cases op <;> rfl

@[simp]
theorem BinaryOp.writable_token (op : BinaryOp) : op.token.writable = true := by
  cases op <;> rfl

mutual

theorem Expr.writable_tokens : ∀ e : Expr, writableTokens e.tokens = e.writable
  | .literal value _ => by simp [Expr.tokens, Expr.writable]
  | .var name _ => by simp [Expr.tokens, Expr.writable, Token.writable]
  | .call callee arguments _ => by
    simp [Expr.tokens, Expr.writable, Token.writable, writableTokens_commaSeparated,
      Expr.writable_tokensOfEach arguments]
  | .unary op operand _ => by
    simp [Expr.tokens, Expr.writable, Expr.writable_tokens operand]
  | .binary op left right _ => by
    simp [Expr.tokens, Expr.writable, Expr.writable_tokens left, Expr.writable_tokens right]
  | .conditional condition consequent alternative _ => by
    simp [Expr.tokens, Expr.writable, Token.writable, Expr.writable_tokens condition,
      Expr.writable_tokens consequent, Expr.writable_tokens alternative]

theorem Expr.writable_tokensOfEach : ∀ es : List Expr,
    (Expr.tokensOfEach es).all writableTokens = writableEach es
  | [] => rfl
  | e :: rest => by
    rw [Expr.tokensOfEach, writableEach, List.all_cons, Expr.writable_tokens e,
      Expr.writable_tokensOfEach rest]

end

theorem Parameter.writable_tokens {parameter : Parameter} (h : parameter.writable = true) :
    writableTokens parameter.tokens = true := by
  obtain ⟨name, ascription⟩ := parameter
  rw [Parameter.writable, Bool.and_eq_true] at h
  cases ascription with
  | none => simp [Parameter.tokens, Token.writable, h.1]
  | some ascription =>
    simp [Parameter.tokens, Ascription.tokens, Token.writable, h.1, writableTokens_barSeparated]

theorem VarDecl.writable_tokens {declaration : VarDecl} (h : declaration.writable = true) :
    writableTokens declaration.tokens = true := by
  obtain ⟨name, ascription, initializer, span⟩ := declaration
  simp only [VarDecl.writable, Bool.and_eq_true] at h
  obtain ⟨hname, _, hinitializer⟩ := h
  cases initializer with
  | none =>
    simp [VarDecl.tokens, Ascription.tokens, Token.writable, hname, writableTokens_barSeparated]
  | some e =>
    have he : e.writable = true := hinitializer
    simp [VarDecl.tokens, Ascription.tokens, Token.writable, hname, he,
      writableTokens_barSeparated, Expr.writable_tokens]

theorem FnDecl.writable_tokens {declaration : FnDecl} (h : declaration.writable = true) :
    writableTokens declaration.tokens = true := by
  simp only [FnDecl.writable, Bool.and_eq_true, List.all_eq_true] at h
  obtain ⟨hname, hparameters, _⟩ := h
  have heach : ∀ parameter ∈ declaration.parameters, writableTokens parameter.tokens = true :=
    fun parameter hmem => Parameter.writable_tokens (hparameters parameter hmem)
  simp [FnDecl.tokens, Ascription.tokens, Token.writable, hname, writableTokens_barSeparated,
    writableTokens_commaSeparated]
  exact heach

mutual

theorem Item.writable_tokens : ∀ item : Item, item.writable = true →
    writableTokens item.tokens = true
  | .var _, h => VarDecl.writable_tokens h
  | .fn _, h => FnDecl.writable_tokens h
  | .block items _, h => by
    simp [Item.tokens, Token.writable, writable_tokensOfItems items h]
  | .expr e, h => by
    have he : e.writable = true := h
    simp [Item.tokens, Token.writable, Expr.writable_tokens, he]

theorem writable_tokensOfItems : ∀ items : List Item, writableItems items = true →
    writableTokens (tokensOfItems items) = true
  | [], _ => rfl
  | item :: rest, h => by
    rw [writableItems, Bool.and_eq_true] at h
    rw [tokensOfItems, writableTokens_append, Item.writable_tokens item h.1,
      writable_tokensOfItems rest h.2, Bool.and_true]

end

/-! ## Expressions -/

theorem Reads.loosen {far : List Located → List Located → Prop} {rank rank' : Nat}
    {ts rest : List Located} {e : Expr} (hle : rank' ≤ rank) (h : Reads far rank ts rest e) :
    Reads far rank' ts rest e := by
  induction hle with
  | refl => exact h
  | step _ ih => exact ih h.tighter

/-- The tokens of the expression are read as the expression, wherever they stand. -/
def Expr.PrintsBack (e : Expr) : Prop :=
  ∀ ts rest, ts.map Located.token = e.tokens → (e.endsOpen = true → Ended rest) →
    ∃ read, Reads AtEnd e.rank ts rest read ∧ read.bare = e.bare

/-- A printed operand, in parentheses if they are needed. -/
theorem Expr.PrintsBack.operand {e : Expr} (h : e.PrintsBack) (rank : Nat) (rest : List Located)
    {needed : Bool} {ts : List Located}
    (hts : ts.map Located.token = parenthesize needed e.tokens)
    (hrank : rank ≤ 7) (hbare : needed = false → rank ≤ e.rank)
    (hopen : needed = false → e.endsOpen = true → Ended rest) :
    ∃ read, Reads AtEnd rank ts rest read ∧ read.bare = e.bare := by
  cases needed with
  | false =>
    obtain ⟨read, hread, heq⟩ := h ts rest hts (hopen rfl)
    exact ⟨read, hread.loosen (hbare rfl), heq⟩
  | true =>
    obtain ⟨_, _, rfl, hinner, hlast⟩ := List.map_eq_append_iff.1 hts
    obtain ⟨open_, us, rfl, hopen_, hus⟩ := List.map_eq_cons_iff.1 hinner
    obtain ⟨close, rfl, hclose⟩ := List.map_eq_singleton_iff.1 hlast
    have hended : Ended (close :: rest) := .cons (by rw [hclose]; rfl) rest
    obtain ⟨read, hread, heq⟩ := h us (close :: rest) hus fun _ => hended
    exact ⟨read, (Reads.group hopen_ (hread.loosen (Nat.zero_le _)) hclose).loosen hrank, heq⟩

/-- The same for a whole expression before a token that ends it. -/
theorem Expr.PrintsBack.whole {e : Expr} (h : e.PrintsBack) {ts rest : List Located}
    (hts : ts.map Located.token = e.tokens) (hrest : Ended rest) :
    ∃ read, Reads AtEnd 0 ts rest read ∧ read.bare = e.bare := by
  obtain ⟨read, hread, heq⟩ := h ts rest hts fun _ => hrest
  exact ⟨read, hread.loosen (Nat.zero_le _), heq⟩

theorem Expr.PrintsBack.literal (value : Literal) (span : Span) :
    (Expr.literal value span).PrintsBack := by
  intro ts rest hts _
  obtain ⟨t, rfl, ht⟩ := List.map_eq_singleton_iff.1 hts
  exact ⟨.literal value t.span, (Reads.literal ht).tighter, rfl⟩

theorem Expr.PrintsBack.var (name : Name) (span : Span) : (Expr.var name span).PrintsBack := by
  intro ts rest hts _
  obtain ⟨t, rfl, ht⟩ := List.map_eq_singleton_iff.1 hts
  exact ⟨.var ⟨name.text, t.span⟩ t.span, (Reads.var ht).tighter, rfl⟩

theorem Expr.PrintsBack.unary {operand : Expr} (h : operand.PrintsBack) (op : UnaryOp)
    (span : Span) : (Expr.unary op operand span).PrintsBack := by
  intro ts rest hts hrest
  obtain ⟨s, us, rfl, hs, hus⟩ := List.map_eq_cons_iff.1 hts
  have hbare : operand.signNeeds = false → 6 ≤ operand.rank := by
    intro hneeds
    exact Nat.le_of_not_lt (of_decide_eq_false hneeds)
  have hopen : operand.signNeeds = false → operand.endsOpen = true → Ended rest := by
    intro hneeds hends
    exact hrest (by rw [Expr.endsOpen, hneeds, hends]; rfl)
  obtain ⟨read, hread, heq⟩ := h.operand 6 rest hus (by omega) hbare hopen
  refine ⟨_, Reads.sign hs hread, ?_⟩
  rw [Expr.bare, Expr.bare, heq]

theorem Expr.PrintsBack.binary {left right : Expr} (hleft : left.PrintsBack)
    (hright : right.PrintsBack) (op : BinaryOp) (span : Span) :
    (Expr.binary op left right span).PrintsBack := by
  intro ts rest hts hrest
  obtain ⟨ls, _, rfl, hls, htail⟩ := List.map_eq_append_iff.1 hts
  obtain ⟨o, rs, rfl, ho, hrs⟩ := List.map_eq_cons_iff.1 htail
  have hrank := op.level.rank_lt
  -- A left operand without parentheses never ends open, so the operator after it is no harm.
  have hleftFree : left.leftNeeds op = false →
      op.level.rank ≤ left.rank ∧ left.endsOpen = false := by
    intro hneeds
    rw [Expr.leftNeeds, Bool.or_eq_false_iff] at hneeds
    exact ⟨Nat.le_of_not_lt (of_decide_eq_false hneeds.1), hneeds.2⟩
  have hrightBare : right.rightNeeds op = false → op.level.rank + 1 ≤ right.rank := by
    intro hneeds
    exact Nat.lt_of_not_le (of_decide_eq_false hneeds)
  have hrightOpen : right.rightNeeds op = false → right.endsOpen = true → Ended rest := by
    intro hneeds hends
    exact hrest (by rw [Expr.endsOpen, hneeds, hends]; rfl)
  obtain ⟨left', hleft', hleftEq⟩ := hleft.operand op.level.rank (o :: (rs ++ rest)) hls
    (by omega) (fun hneeds => (hleftFree hneeds).1)
    (fun hneeds hends => by rw [(hleftFree hneeds).2] at hends; contradiction)
  obtain ⟨right', hright', hrightEq⟩ := hright.operand (op.level.rank + 1) rest hrs (by omega)
    hrightBare hrightOpen
  refine ⟨_, Reads.binary hleft' ho hright', ?_⟩
  rw [Expr.bare, Expr.bare, hleftEq, hrightEq]

theorem Expr.PrintsBack.conditional {condition consequent alternative : Expr}
    (hcondition : condition.PrintsBack) (hconsequent : consequent.PrintsBack)
    (halternative : alternative.PrintsBack) (span : Span) :
    (Expr.conditional condition consequent alternative span).PrintsBack := by
  intro ts rest hts hrest
  have hended : Ended rest := hrest rfl
  rw [Expr.tokens, List.append_assoc, List.cons_append] at hts
  obtain ⟨if_, _, rfl, hif, hts⟩ := List.map_eq_cons_iff.1 hts
  obtain ⟨cs, _, rfl, hcs, hts⟩ := List.map_eq_append_iff.1 hts
  obtain ⟨then_, _, rfl, hthen, hts⟩ := List.map_eq_cons_iff.1 hts
  obtain ⟨bs, _, rfl, hbs, hts⟩ := List.map_eq_append_iff.1 hts
  obtain ⟨else_, as, rfl, helse, has⟩ := List.map_eq_cons_iff.1 hts
  obtain ⟨test, htest, htestEq⟩ := hcondition.whole hcs
    (.cons (by rw [hthen]; rfl) (bs ++ else_ :: (as ++ rest)))
  obtain ⟨yes, hyes, hyesEq⟩ := hconsequent.whole hbs (.cons (by rw [helse]; rfl) (as ++ rest))
  obtain ⟨no, hno, hnoEq⟩ := halternative.whole has hended
  refine ⟨_, (Reads.conditional hif htest hthen hyes helse hno hended).tighter, ?_⟩
  rw [Expr.bare, Expr.bare, htestEq, hyesEq, hnoEq]

/-- The tokens of an argument list are read as its expressions. -/
def ArgumentsPrintBack (es : List Expr) : Prop :=
  ∀ us rest, us.map Located.token = commaSeparated (Expr.tokensOfEach es) → Ended rest →
    ∃ read, ReadsArguments AtEnd us rest read ∧ bareEach read = bareEach es

theorem Expr.PrintsBack.call {arguments : List Expr} (h : ArgumentsPrintBack arguments)
    (callee : Name) (span : Span) : (Expr.call callee arguments span).PrintsBack := by
  intro ts rest hts _
  rw [Expr.tokens, List.cons_append, List.cons_append] at hts
  obtain ⟨t, _, rfl, ht, hts⟩ := List.map_eq_cons_iff.1 hts
  obtain ⟨open_, _, rfl, hopen, hts⟩ := List.map_eq_cons_iff.1 hts
  obtain ⟨us, _, rfl, hus, hlast⟩ := List.map_eq_append_iff.1 hts
  obtain ⟨close, rfl, hclose⟩ := List.map_eq_singleton_iff.1 hlast
  obtain ⟨read, hread, heq⟩ := h us (close :: rest) hus (.cons (by rw [hclose]; rfl) rest)
  refine ⟨_, (Reads.call ht hopen hread hclose).tighter, ?_⟩
  rw [Expr.bare, Expr.bare, heq]
  rfl

theorem ArgumentsPrintBack.cons {e : Expr} {others : List Expr} (h : e.PrintsBack)
    (hothers : ArgumentsPrintBack others) : ArgumentsPrintBack (e :: others) := by
  intro us rest hus hrest
  cases others with
  | nil =>
    obtain ⟨read, hread, heq⟩ := h.whole hus hrest
    exact ⟨[read], .last hread, by rw [bareEach, bareEach, heq]; rfl⟩
  | cons next others =>
    obtain ⟨ts, _, rfl, hts, htail⟩ := List.map_eq_append_iff.1 hus
    obtain ⟨comma, vs, rfl, hcomma, hvs⟩ := List.map_eq_cons_iff.1 htail
    obtain ⟨read, hread, heq⟩ := h.whole hts (.cons (by rw [hcomma]; rfl) (vs ++ rest))
    obtain ⟨reads, hreads, heqs⟩ := hothers vs rest hvs hrest
    exact ⟨read :: reads, .more hread hcomma hreads, by rw [bareEach, bareEach, heq, heqs]⟩

mutual

/-- Every expression is printed so that it is read back. -/
theorem Expr.printsBack : ∀ e : Expr, e.PrintsBack
  | .literal value span => .literal value span
  | .var name span => .var name span
  | .call callee arguments span => .call (argumentsPrintBack arguments) callee span
  | .unary op operand span => .unary operand.printsBack op span
  | .binary op left right span => .binary left.printsBack right.printsBack op span
  | .conditional condition consequent alternative span =>
    .conditional condition.printsBack consequent.printsBack alternative.printsBack span

theorem argumentsPrintBack : ∀ es : List Expr, ArgumentsPrintBack es
  | [] => fun us rest hus _ => by
    obtain rfl := List.map_eq_nil_iff.1 hus
    exact ⟨[], .none, rfl⟩
  | e :: others => .cons e.printsBack (argumentsPrintBack others)

end

/-! ## Declarations -/

/-- More members of an ascription, each after a bar. -/
theorem ReadsAscription.extend {ts us : List Located} {ascription : Ascription}
    (h : ReadsAscription ts ascription) {members : List Base}
    (hus : us.map Located.token = members.flatMap fun base => [.pipe, .base base]) :
    ∃ read, ReadsAscription (ts ++ us) read ∧ read.members = ascription.members ++ members := by
  induction members generalizing ts us ascription with
  | nil =>
    obtain rfl := List.map_eq_nil_iff.1 hus
    exact ⟨ascription, by simpa using h, by simp⟩
  | cons base members ih =>
    obtain ⟨bar, _, rfl, hbar, hus⟩ := List.map_eq_cons_iff.1 hus
    obtain ⟨t, us, rfl, ht, hus⟩ := List.map_eq_cons_iff.1 hus
    obtain ⟨read, hread, heq⟩ := ih (h.bar hbar ht) hus
    exact ⟨read, by simpa using hread, by simp [heq]⟩

theorem barSeparated_cons (base : Base) (members : List Base) :
    barSeparated (base :: members) =
      .base base :: members.flatMap fun base => [.pipe, .base base] := by
  induction members generalizing base with
  | nil => rfl
  | cons next members ih =>
    rw [barSeparated, ih next]
    · rfl
    · simp

theorem Ascription.reads_tokens {ascription : Ascription} (h : ascription.writable = true)
    {ts : List Located} (hts : ts.map Located.token = ascription.tokens) :
    ∃ read, ReadsAscription ts read ∧ read.bare = ascription.bare := by
  obtain ⟨members, span⟩ := ascription
  cases members with
  | nil => contradiction
  | cons base members =>
    rw [Ascription.tokens, barSeparated_cons] at hts
    obtain ⟨t, us, rfl, ht, hus⟩ := List.map_eq_cons_iff.1 hts
    obtain ⟨read, hread, heq⟩ := (ReadsAscription.base ht).extend hus
    exact ⟨read, hread, by rw [Ascription.bare, heq]; rfl⟩

theorem Parameter.reads_tokens {parameter : Parameter} (h : parameter.writable = true)
    {ts : List Located} (hts : ts.map Located.token = parameter.tokens) :
    ∃ read, ReadsParameter ts read ∧ read.bare = parameter.bare := by
  obtain ⟨name, ascription⟩ := parameter
  rw [Parameter.writable, Bool.and_eq_true] at h
  obtain ⟨t, _, rfl, ht, hts⟩ := List.map_eq_cons_iff.1 hts
  cases ascription with
  | none =>
    obtain rfl := List.map_eq_nil_iff.1 hts
    exact ⟨_, .bare ht, rfl⟩
  | some ascription =>
    obtain ⟨colon, us, rfl, hcolon, hus⟩ := List.map_eq_cons_iff.1 hts
    obtain ⟨read, hread, heq⟩ := Ascription.reads_tokens h.2 hus
    exact ⟨_, .ascribed ht hcolon hread, by simp [Parameter.bare, Name.bare, heq]⟩

theorem Parameter.reads_commaSeparated {parameters : List Parameter}
    (h : ∀ parameter ∈ parameters, parameter.writable = true) {ts : List Located}
    (hts : ts.map Located.token = commaSeparated (parameters.map Parameter.tokens)) :
    ∃ read, ReadsParameters ts read ∧
      read.map Parameter.bare = parameters.map Parameter.bare := by
  induction parameters generalizing ts with
  | nil =>
    obtain rfl := List.map_eq_nil_iff.1 hts
    exact ⟨[], .none, rfl⟩
  | cons parameter parameters ih =>
    have hparameter := h parameter (by simp)
    cases parameters with
    | nil =>
      obtain ⟨read, hread, heq⟩ := Parameter.reads_tokens hparameter hts
      exact ⟨[read], .last hread, by simp [heq]⟩
    | cons next parameters =>
      obtain ⟨us, _, rfl, hus, hts⟩ := List.map_eq_append_iff.1 hts
      obtain ⟨comma, vs, rfl, hcomma, hvs⟩ := List.map_eq_cons_iff.1 hts
      obtain ⟨read, hread, heq⟩ := Parameter.reads_tokens hparameter hus
      obtain ⟨reads, hreads, heqs⟩ := ih (fun p hp => h p (by simp [hp])) hvs
      exact ⟨read :: reads, .more hread hcomma hreads, by rw [List.map_cons, heq, heqs]; rfl⟩

/-! ## Items -/

theorem VarDecl.reads_tokens {declaration : VarDecl} (h : declaration.writable = true)
    {ts : List Located} (hts : ts.map Located.token = declaration.tokens) (rest : List Located) :
    ∃ read, ReadsItem AtEnd ts rest read ∧ read.bare = (Item.var declaration).bare := by
  obtain ⟨name, ascription, initializer, span⟩ := declaration
  simp only [VarDecl.writable, Bool.and_eq_true] at h
  obtain ⟨_, hascription, _⟩ := h
  simp only [VarDecl.tokens, List.cons_append] at hts
  obtain ⟨var_, _, rfl, hvar, hts⟩ := List.map_eq_cons_iff.1 hts
  obtain ⟨t, _, rfl, ht, hts⟩ := List.map_eq_cons_iff.1 hts
  obtain ⟨colon, _, rfl, hcolon, hts⟩ := List.map_eq_cons_iff.1 hts
  obtain ⟨_, _, rfl, hbody, hlast⟩ := List.map_eq_append_iff.1 hts
  obtain ⟨semicolon, rfl, hsemicolon⟩ := List.map_eq_singleton_iff.1 hlast
  obtain ⟨us, vs, rfl, hus, hvs⟩ := List.map_eq_append_iff.1 hbody
  obtain ⟨type, htype, htypeEq⟩ := Ascription.reads_tokens hascription hus
  cases initializer with
  | none =>
    obtain rfl := List.map_eq_nil_iff.1 hvs
    refine ⟨_, .var hvar ht hcolon htype .absent hsemicolon, ?_⟩
    simp [Item.bare, VarDecl.bare, Name.bare, htypeEq]
  | some e =>
    obtain ⟨assign, es, rfl, hassign, hes⟩ := List.map_eq_cons_iff.1 hvs
    obtain ⟨read, hread, heq⟩ := e.printsBack.whole hes
      (.cons (by rw [hsemicolon]; rfl) rest)
    refine ⟨_, .var hvar ht hcolon htype (.present hassign hread) hsemicolon, ?_⟩
    simp [Item.bare, VarDecl.bare, Name.bare, htypeEq, heq]

theorem FnDecl.reads_tokens {declaration : FnDecl} (h : declaration.writable = true)
    {ts : List Located} (hts : ts.map Located.token = declaration.tokens) (rest : List Located) :
    ∃ read, ReadsItem AtEnd ts rest read ∧ read.bare = (Item.fn declaration).bare := by
  simp only [FnDecl.writable, Bool.and_eq_true, List.all_eq_true] at h
  obtain ⟨_, hparameters, hresult⟩ := h
  simp only [FnDecl.tokens, List.cons_append, List.append_assoc] at hts
  obtain ⟨fn_, _, rfl, hfn, hts⟩ := List.map_eq_cons_iff.1 hts
  obtain ⟨t, _, rfl, ht, hts⟩ := List.map_eq_cons_iff.1 hts
  obtain ⟨open_, _, rfl, hopen, hts⟩ := List.map_eq_cons_iff.1 hts
  obtain ⟨ps, _, rfl, hps, hts⟩ := List.map_eq_append_iff.1 hts
  obtain ⟨close, _, rfl, hclose, hts⟩ := List.map_eq_cons_iff.1 hts
  obtain ⟨arrow, _, rfl, harrow, hts⟩ := List.map_eq_cons_iff.1 hts
  obtain ⟨us, _, rfl, hus, hlast⟩ := List.map_eq_append_iff.1 hts
  obtain ⟨semicolon, rfl, hsemicolon⟩ := List.map_eq_singleton_iff.1 hlast
  obtain ⟨parameters, hread, heq⟩ := Parameter.reads_commaSeparated hparameters hps
  obtain ⟨result, hresult', hresultEq⟩ := Ascription.reads_tokens hresult hus
  refine ⟨_, .fn hfn ht hopen hread hclose harrow hresult' hsemicolon, ?_⟩
  simp [Item.bare, FnDecl.bare, Name.bare, heq, hresultEq]

mutual

/-- Every item that can be written is read back. -/
theorem Item.reads_tokens : ∀ item : Item, item.writable = true → ∀ {ts : List Located},
    ts.map Located.token = item.tokens → ∀ rest : List Located,
    ∃ read, ReadsItem AtEnd ts rest read ∧ read.bare = item.bare
  | .var _, h, _, hts, rest => VarDecl.reads_tokens h hts rest
  | .fn _, h, _, hts, rest => FnDecl.reads_tokens h hts rest
  | .block items _, h, _, hts, rest => by
    rw [Item.tokens, List.cons_append] at hts
    obtain ⟨open_, _, rfl, hopen, hts⟩ := List.map_eq_cons_iff.1 hts
    obtain ⟨us, _, rfl, hus, hlast⟩ := List.map_eq_append_iff.1 hts
    obtain ⟨close, rfl, hclose⟩ := List.map_eq_singleton_iff.1 hlast
    obtain ⟨read, hread, heq⟩ := reads_tokensOfItems items h hus (close :: rest)
    exact ⟨_, .block hopen hread hclose, by rw [Item.bare, Item.bare, heq]⟩
  | .expr e, _, _, hts, rest => by
    obtain ⟨us, _, rfl, hus, hlast⟩ := List.map_eq_append_iff.1 hts
    obtain ⟨semicolon, rfl, hsemicolon⟩ := List.map_eq_singleton_iff.1 hlast
    obtain ⟨read, hread, heq⟩ := e.printsBack.whole hus (.cons (by rw [hsemicolon]; rfl) rest)
    exact ⟨_, .expr hread hsemicolon, by rw [Item.bare, Item.bare, heq]⟩

theorem reads_tokensOfItems : ∀ items : List Item, writableItems items = true →
    ∀ {ts : List Located}, ts.map Located.token = tokensOfItems items → ∀ rest : List Located,
    ∃ read, ReadsItems AtEnd ts rest read ∧ bareItems read = bareItems items
  | [], _, _, hts, _ => by
    obtain rfl := List.map_eq_nil_iff.1 hts
    exact ⟨[], .nil, rfl⟩
  | item :: others, h, _, hts, rest => by
    rw [writableItems, Bool.and_eq_true] at h
    obtain ⟨us, vs, rfl, hus, hvs⟩ := List.map_eq_append_iff.1 hts
    obtain ⟨read, hread, heq⟩ := Item.reads_tokens item h.1 hus (vs ++ rest)
    obtain ⟨reads, hreads, heqs⟩ := reads_tokensOfItems others h.2 hvs rest
    exact ⟨read :: reads, .cons hread hreads, by rw [bareItems, bareItems, heq, heqs]⟩

end

/-! ## Programs -/

theorem Program.writable_tokens {program : Program} (h : program.writable = true) :
    ∀ token ∈ program.tokens, token.writable = true :=
  List.all_eq_true.1 (writable_tokensOfItems program.items h)

theorem Program.tokens_render {program : Program} (h : program.writable = true) :
    TagLang.tokens program.render = placed 0 program.tokens :=
  tokens_written (Program.writable_tokens h)

theorem Program.strays_render {program : Program} (h : program.writable = true) :
    strays program.render = [] :=
  strays_written (Program.writable_tokens h)

/-- The tokens of a program, wherever they stand, make that program. -/
theorem Program.ofTokens_tokens {program : Program} (h : program.writable = true)
    {ts : List Located} (hts : ts.map Located.token = program.tokens) (length : Nat) :
    ∃ read, Program.ofTokens length ts = .ok read ∧ read.bare = program.bare := by
  obtain ⟨items, hitems, heq⟩ := reads_tokensOfItems program.items h hts []
  exact ⟨_, hitems.ofTokens length, by rw [Program.bare, Program.bare, heq]⟩

/-- The text of a program is read as that program, and nothing is reported, under every
limit that the nesting of the text does not pass. -/
theorem parse_render {program : Program} {limit : Nat} (hwritable : program.writable = true)
    (hlimit : Nesting.exceeding? limit (tokens program.render) = none) :
    ∃ read, Log.empty.parse limit program.render = (some read, .empty) ∧
      read.bare = program.bare := by
  have htokens : (tokens program.render).map Located.token = program.tokens := by
    rw [Program.tokens_render hwritable]
    exact placed_tokens 0 program.tokens
  obtain ⟨read, hread, heq⟩ :=
    Program.ofTokens_tokens hwritable htokens program.render.utf8ByteSize
  refine ⟨read, ?_, heq⟩
  rw [Log.parse_of_ok hlimit hread, strayDiagnostics, Program.strays_render hwritable]
  rfl

/-- A program with operands that need parentheses for each of the three reasons: a
conditional before an operator, a right operand of the same level, and a sum in a
product. -/
def Program.sample : Program :=
  let variable_ (text : String) : Expr := .var ⟨text, .point 0⟩ (.point 0)
  let binary (op : BinaryOp) (left right : Expr) : Expr := .binary op left right (.point 0)
  let conditional : Expr :=
    .conditional (variable_ "a") (.literal (.int "1") (.point 0))
      (.literal (.str "\"\n\\") (.point 0)) (.point 0)
  let signed : Expr := .unary .negate (.unary .not (variable_ "c") (.point 0)) (.point 0)
  let product := binary .multiply signed (binary .add (variable_ "d") (variable_ "e"))
  let initializer := binary .subtract conditional (binary .subtract (variable_ "b") product)
  ⟨[.block [.var ⟨⟨"x", .point 0⟩, ⟨[.int, .any], .point 0⟩, some initializer, .point 0⟩]
    (.point 0)], .point 0⟩

theorem parse_render_sample :
    Program.sample.writable = true ∧
      Nesting.exceeding? 3 (tokens Program.sample.render) = none ∧
      ∃ read, Log.empty.parse 3 Program.sample.render = (some read, .empty) ∧
        read.bare = Program.sample := by
  have hwritable : Program.sample.writable = true := by decide
  have hlimit : Nesting.exceeding? 3 (tokens Program.sample.render) = none := by
    rw [Program.tokens_render hwritable]
    decide
  exact ⟨hwritable, hlimit, parse_render hwritable hlimit⟩

end TagLang
