import TagLang.Proofs.Parsing
import TagLang.Proofs.Positions
import TagLang.Proofs.Stages

/-!
# The outline of a program

A syntax tree says of each of its parts where it stands.  `Outline` keeps only that: a
tree of spans, with the words that names and numbers claim to stand there.

* `Outline.Sited` is what the tokens around a node decide: the node starts where one of
  them starts and stops where one of them stops, its parts lie in it, and they come one
  after the other.  `Outline.Among` says it of a node and of all nodes below.
* `Row` says that outlines come one after the other among some tokens.  Rows are put
  together along the concatenation of the tokens, `Row.append`, and become the parts of a
  node, `Row.node` and `Row.whole`.
* `Reads.among` and `ReadsItem.among` follow the productions of the grammar, and so do
  `Reads.spannedByName` and `ReadsItem.spannedByName` for the two spans of a variable.
* `parse_outline_placed` is the result for sources.
-/

namespace TagLang

/-! ## Outlines -/

/-- A tree of spans.  A node may name the word that stands at its span. -/
inductive Outline where
  | node (span : Span) (word : Option String) (parts : List Outline)

namespace Outline

/-- The span of the root. -/
def span : Outline → Span
  | node span _ _ => span

/-- The word at the root. -/
def word? : Outline → Option String
  | node _ word _ => word

/-- The parts of the root. -/
def parts : Outline → List Outline
  | node _ _ parts => parts

mutual

/-- The root and all nodes below it. -/
def nodes : Outline → List Outline
  | node span word parts => node span word parts :: nodesOfEach parts

/-- The nodes of several outlines. -/
def nodesOfEach : List Outline → List Outline
  | [] => []
  | outline :: rest => outline.nodes ++ nodesOfEach rest

end

theorem mem_nodesOfEach {node : Outline} {outlines : List Outline} :
    node ∈ nodesOfEach outlines ↔ ∃ outline ∈ outlines, node ∈ outline.nodes := by
  induction outlines with
  | nil => simp [nodesOfEach]
  | cons outline rest ih => simp [nodesOfEach, ih]

theorem mem_nodes {outline node : Outline} :
    outline ∈ node.nodes ↔ outline = node ∨ outline ∈ nodesOfEach node.parts := by
  cases node
  simp [nodes, parts]

end Outline

/-! ## The outlines of syntax trees -/

/-- A name claims that its text stands at its span. -/
def Name.outline (name : Name) : Outline :=
  .node name.span (some name.text) []

def Ascription.outline (ascription : Ascription) : Outline :=
  .node ascription.span none []

/-- The word that a literal is written with, where that is known. -/
def Literal.word? : Literal → Option String
  | int digits => some digits
  | str _ => none
  | bool _ => none

mutual

/-- The parts of an expression are its operands, branches and arguments.  A call has its
callee before them, and a variable consists of its name. -/
def Expr.outline : Expr → Outline
  | .literal value span => .node span value.word? []
  | .var name span => .node span none [name.outline]
  | .call callee arguments span => .node span none (callee.outline :: outlinesOfEach arguments)
  | .unary _ operand span => .node span none [operand.outline]
  | .binary _ left right span => .node span none [left.outline, right.outline]
  | .conditional condition consequent alternative span =>
    .node span none [condition.outline, consequent.outline, alternative.outline]

/-- The outlines of several expressions. -/
def outlinesOfEach : List Expr → List Outline
  | [] => []
  | e :: rest => e.outline :: outlinesOfEach rest

end

/-- A parameter has no span of its own: its name and its ascription are parts of the
function. -/
def Parameter.outlines (parameter : Parameter) : List Outline :=
  parameter.name.outline :: parameter.ascription.toList.map Ascription.outline

def VarDecl.outline (declaration : VarDecl) : Outline :=
  .node declaration.span none
    (declaration.name.outline :: declaration.ascription.outline ::
      declaration.initializer.toList.map Expr.outline)

def FnDecl.outline (declaration : FnDecl) : Outline :=
  .node declaration.span none
    (declaration.name.outline ::
      (declaration.parameters.flatMap Parameter.outlines ++ [declaration.result.outline]))

mutual

/-- An item that is an expression has the outline of the expression. -/
def Item.outline : Item → Outline
  | .var declaration => declaration.outline
  | .fn declaration => declaration.outline
  | .block items span => .node span none (outlinesOfItems items)
  | .expr e => e.outline

/-- The outlines of several items. -/
def outlinesOfItems : List Item → List Outline
  | [] => []
  | item :: rest => item.outline :: outlinesOfItems rest

end

/-- The outlines of the items of a program. -/
def Program.outlines (program : Program) : List Outline :=
  outlinesOfItems program.items

/-- All nodes of the outlines of a program. -/
def Program.nodes (program : Program) : List Outline :=
  Outline.nodesOfEach program.outlines

theorem Expr.span_outline (e : Expr) : e.outline.span = e.span := by
  cases e <;> simp [Expr.outline, Expr.span, Outline.span]

/-! ## Tokens in order -/

/-- Tokens that come one after the other, each with some text. -/
structure Ordered (ts : List Located) : Prop where
  pairwise : ts.Pairwise fun first second => first.span.Before second.span
  nonempty : ∀ t ∈ ts, t.span.start < t.span.stop

theorem ordered_tokens (source : String) : Ordered (tokens source) :=
  ⟨tokens_pairwise source, fun _ h => (inText_of_mem_tokens h).2⟩

theorem Ordered.sublist {ts us : List Located} (h : Ordered us) (hsub : ts.Sublist us) :
    Ordered ts :=
  ⟨h.pairwise.sublist hsub, fun t ht => h.nonempty t (hsub.subset ht)⟩

theorem Ordered.left {ts us : List Located} (h : Ordered (ts ++ us)) : Ordered ts :=
  h.sublist (List.sublist_append_left ts us)

theorem Ordered.right {ts us : List Located} (h : Ordered (ts ++ us)) : Ordered us :=
  h.sublist (List.sublist_append_right ts us)

theorem Ordered.tail {t : Located} {ts : List Located} (h : Ordered (t :: ts)) : Ordered ts :=
  h.sublist (List.sublist_cons_self t ts)

theorem Ordered.head {t : Located} {ts : List Located} (h : Ordered (t :: ts)) : Ordered [t] :=
  Ordered.left h

theorem Ordered.before {ts us : List Located} (h : Ordered (ts ++ us)) {t u : Located}
    (ht : t ∈ ts) (hu : u ∈ us) : t.span.Before u.span :=
  (List.pairwise_append.1 h.pairwise).2.2 t ht u hu

/-- The start of the first of some tokens. -/
def startOf (ts : List Located) : Nat :=
  (ts.head?.map (·.span.start)).getD 0

/-- Every token lies between the start of the first one and the stop of the last one. -/
theorem Ordered.bounds {ts : List Located} (h : Ordered ts) {t : Located} (ht : t ∈ ts) :
    startOf ts ≤ t.span.start ∧ t.span.stop ≤ stopOf ts := by
  constructor
  · cases ts with
    | nil => contradiction
    | cons first rest =>
      show first.span.start ≤ t.span.start
      rcases List.mem_cons.1 ht with rfl | ht
      · exact Nat.le_refl _
      · have hfirst := h.nonempty first (by simp)
        have hbefore : first.span.stop ≤ t.span.start := (List.pairwise_cons.1 h.pairwise).1 t ht
        omega
  · rcases List.eq_nil_or_concat ts with rfl | ⟨rest, last, rfl⟩
    · contradiction
    · rw [List.concat_eq_append] at h ht ⊢
      rw [stopOf_concat]
      rcases List.mem_append.1 ht with ht | ht
      · have hlast := h.nonempty last (by simp)
        have hbefore : t.span.stop ≤ last.span.start := h.before ht (by simp)
        omega
      · obtain rfl := List.mem_singleton.1 ht
        exact Nat.le_refl _

/-- The whole of some tokens starts where one of them starts and stops where one stops. -/
theorem exists_startOf_stopOf {ts : List Located} (h : ts ≠ []) :
    (∃ t ∈ ts, t.span.start = startOf ts) ∧ ∃ t ∈ ts, t.span.stop = stopOf ts := by
  constructor
  · cases ts with
    | nil => contradiction
    | cons first rest => exact ⟨first, by simp, rfl⟩
  · rcases List.eq_nil_or_concat ts with rfl | ⟨rest, last, rfl⟩
    · contradiction
    · rw [List.concat_eq_append]
      exact ⟨last, by simp, (stopOf_concat rest last).symm⟩

/-! ## Outlines among tokens -/

/-- What the tokens around a node decide. -/
structure Outline.Sited (ts : List Located) (node : Outline) : Prop where
  nonempty : node.span.start < node.span.stop
  starts : ∃ t ∈ ts, t.span.start = node.span.start
  stops : ∃ t ∈ ts, t.span.stop = node.span.stop
  word : ∀ word, node.word? = some word →
    ∃ t ∈ ts, t.span = node.span ∧ t.token.word? = some word
  within : ∀ part ∈ node.parts, part.span.Within node.span
  ordered : node.parts.Pairwise fun first second => first.span.Before second.span

theorem Outline.Sited.mono {ts us : List Located} {node : Outline} (h : node.Sited ts)
    (hsub : ts ⊆ us) : node.Sited us where
  nonempty := h.nonempty
  starts := h.starts.imp fun _ ht => ⟨hsub ht.1, ht.2⟩
  stops := h.stops.imp fun _ ht => ⟨hsub ht.1, ht.2⟩
  word := fun word hword => (h.word word hword).imp fun _ ht => ⟨hsub ht.1, ht.2⟩
  within := h.within
  ordered := h.ordered

/-- A node and all nodes below it stand among the tokens. -/
def Outline.Among (ts : List Located) (outline : Outline) : Prop :=
  ∀ node ∈ outline.nodes, node.Sited ts

theorem Outline.Among.mono {ts us : List Located} {outline : Outline} (h : outline.Among ts)
    (hsub : ts ⊆ us) : outline.Among us :=
  fun node hnode => (h node hnode).mono hsub

theorem Outline.Among.root {ts : List Located} {outline : Outline} (h : outline.Among ts) :
    outline.Sited ts :=
  h outline (Outline.mem_nodes.2 (.inl rfl))

/-- What stands among tokens lies between the first and the last of them. -/
theorem Outline.Among.within {ts : List Located} {outline : Outline} (h : outline.Among ts)
    (hts : Ordered ts) : outline.span.Within ⟨startOf ts, stopOf ts⟩ := by
  obtain ⟨t, ht, hstart⟩ := h.root.starts
  obtain ⟨u, hu, hstop⟩ := h.root.stops
  have hfirst := (hts.bounds ht).1
  have hlast := (hts.bounds hu).2
  unfold Span.Within
  dsimp only
  omega

/-- A single token makes a node without parts. -/
theorem Outline.among_token {t : Located} (ht : Ordered [t]) {word : Option String}
    (hword : ∀ text, word = some text → t.token.word? = some text) :
    (Outline.node t.span word []).Among [t] := by
  intro node hnode
  obtain rfl : node = .node t.span word [] := by
    simpa [Outline.nodes, Outline.nodesOfEach] using hnode
  exact {
    nonempty := ht.nonempty t (by simp)
    starts := ⟨t, by simp, rfl⟩
    stops := ⟨t, by simp, rfl⟩
    word := fun text htext => ⟨t, by simp, rfl, hword text htext⟩
    within := by simp [Outline.parts]
    ordered := .nil }

/-! ## Rows of outlines -/

/-- Outlines that stand among the tokens one after the other. -/
structure Row (ts : List Located) (outlines : List Outline) : Prop where
  among : ∀ outline ∈ outlines, outline.Among ts
  ordered : outlines.Pairwise fun first second => first.span.Before second.span

theorem Row.nil (ts : List Located) : Row ts [] :=
  ⟨by simp, .nil⟩

theorem Row.single {ts : List Located} {outline : Outline} (h : outline.Among ts) :
    Row ts [outline] :=
  ⟨by simpa using h, List.pairwise_singleton _ _⟩

theorem Row.mono {ts us : List Located} {outlines : List Outline} (h : Row ts outlines)
    (hsub : ts ⊆ us) : Row us outlines :=
  ⟨fun outline ho => (h.among outline ho).mono hsub, h.ordered⟩

/-- Outlines among later tokens come later. -/
theorem Row.append {ts us : List Located} {first second : List Outline}
    (hord : Ordered (ts ++ us)) (hfirst : Row ts first) (hsecond : Row us second) :
    Row (ts ++ us) (first ++ second) := by
  constructor
  · intro outline ho
    rcases List.mem_append.1 ho with ho | ho
    · exact (hfirst.among outline ho).mono (List.subset_append_left ts us)
    · exact (hsecond.among outline ho).mono (List.subset_append_right ts us)
  · refine List.pairwise_append.2 ⟨hfirst.ordered, hsecond.ordered, fun a ha b hb => ?_⟩
    -- `a` stops with one of the first tokens, and `b` starts with one of the others.
    obtain ⟨t, ht, hstop⟩ := (hfirst.among a ha).root.stops
    obtain ⟨u, hu, hstart⟩ := (hsecond.among b hb).root.starts
    have hbefore : t.span.stop ≤ u.span.start := hord.before ht hu
    show a.span.stop ≤ b.span.start
    omega

/-- A token before a row. -/
theorem Row.cons {t : Located} {ts : List Located} {outlines : List Outline}
    (h : Row ts outlines) : Row (t :: ts) outlines :=
  h.mono (List.subset_cons_self t ts)

/-- Tokens after a row. -/
theorem Row.before {ts us : List Located} {outlines : List Outline}
    (h : Row ts outlines) : Row (ts ++ us) outlines :=
  h.mono (List.subset_append_left ts us)

/-- A row inside the span of a node is the row of its parts. -/
theorem Row.node {ts : List Located} {outlines : List Outline} {span : Span}
    (h : Row ts outlines) (hnonempty : span.start < span.stop)
    (hstarts : ∃ t ∈ ts, t.span.start = span.start)
    (hstops : ∃ t ∈ ts, t.span.stop = span.stop)
    (hwithin : ∀ outline ∈ outlines, outline.span.Within span) :
    (Outline.node span none outlines).Among ts := by
  intro node hnode
  rcases Outline.mem_nodes.1 hnode with rfl | hbelow
  · exact ⟨hnonempty, hstarts, hstops, by simp [Outline.word?], hwithin, h.ordered⟩
  · obtain ⟨outline, ho, hnode⟩ := Outline.mem_nodesOfEach.1 hbelow
    exact h.among outline ho node hnode

/-- A row among tokens is the row of the parts of a node that takes all of them. -/
theorem Row.whole {ts : List Located} {outlines : List Outline} (hts : Ordered ts)
    (hne : ts ≠ []) (h : Row ts outlines) {span : Span}
    (hspan : span = ⟨startOf ts, stopOf ts⟩) : (Outline.node span none outlines).Among ts := by
  subst hspan
  obtain ⟨hstarts, hstops⟩ := exists_startOf_stopOf hne
  refine h.node ?_ hstarts hstops fun outline ho => (h.among outline ho).within hts
  obtain ⟨t, ht, hstart⟩ := hstarts
  have hlast := (hts.bounds ht).2
  have hnonempty := hts.nonempty t ht
  dsimp only
  omega

/-! ## Expressions -/

theorem Name.among {t : Located} (ht : Ordered [t]) {text : String}
    (htoken : t.token = .name text) : (Name.outline ⟨text, t.span⟩).Among [t] :=
  Outline.among_token ht fun _ h => by rw [htoken]; exact h

theorem Literal.among {t : Located} (ht : Ordered [t]) {value : Literal}
    (htoken : t.token = value.token) : (Expr.literal value t.span).outline.Among [t] := by
  refine Outline.among_token ht fun text h => ?_
  rw [htoken]
  cases value <;> simp_all [Literal.word?, Literal.token, Token.word?]

/-- Of two spans one after the other, the least range that covers both goes from the
start of the first to the stop of the second. -/
theorem Span.hull_of_before {first second : Span} (hfirst : first.start < first.stop)
    (hsecond : second.start < second.stop) (h : first.Before second) :
    first.hull second = ⟨first.start, second.stop⟩ := by
  unfold Span.Before at h
  unfold Span.hull
  rw [Nat.min_eq_left (by omega), Nat.max_eq_right (by omega)]

theorem Expr.among_unary {s : Located} {ts : List Located} (hts : Ordered (s :: ts))
    {operand : Expr} (h : operand.outline.Among ts) (op : UnaryOp) :
    (Expr.unary op operand (s.span.hull operand.span)).outline.Among (s :: ts) := by
  obtain ⟨t, ht, hstart⟩ := h.root.starts
  obtain ⟨u, hu, hstop⟩ := h.root.stops
  have hsign := hts.nonempty s (by simp)
  have hoperand := h.root.nonempty
  have hbefore : s.span.stop ≤ t.span.start := (List.pairwise_cons.1 hts.pairwise).1 t ht
  rw [operand.span_outline] at hstart hstop hoperand
  rw [Span.hull_of_before hsign hoperand (by unfold Span.Before; omega)]
  refine (Row.single h).cons.node ?_ ⟨s, by simp, rfl⟩ ⟨u, by simp [hu], hstop⟩ ?_
  · show s.span.start < operand.span.stop
    omega
  · intro outline ho
    obtain rfl := List.mem_singleton.1 ho
    rw [operand.span_outline]
    show s.span.start ≤ operand.span.start ∧ operand.span.stop ≤ operand.span.stop
    omega

theorem Expr.among_binary {o : Located} {ls rs : List Located} (hts : Ordered (ls ++ o :: rs))
    {left right : Expr} (hleft : left.outline.Among ls) (hright : right.outline.Among rs)
    (op : BinaryOp) :
    (Expr.binary op left right (left.span.hull right.span)).outline.Among (ls ++ o :: rs) := by
  have hrow := (Row.single hleft).append hts (Row.single hright).cons
  obtain ⟨t, ht, hstart⟩ := hleft.root.starts
  obtain ⟨u, hu, hstop⟩ := hright.root.stops
  have hbefore : left.outline.span.stop ≤ right.outline.span.start := by
    simpa [Span.Before] using hrow.ordered
  have hl := hleft.root.nonempty
  have hr := hright.root.nonempty
  rw [left.span_outline] at hstart hbefore hl
  rw [right.span_outline] at hstop hbefore hr
  rw [Span.hull_of_before hl hr hbefore]
  refine hrow.node ?_ ⟨t, by simp [ht], hstart⟩ ⟨u, by simp [hu], hstop⟩ ?_
  · show left.span.start < right.span.stop
    omega
  · intro outline ho
    unfold Span.Within
    dsimp only
    rcases List.mem_cons.1 ho with rfl | ho
    · rw [left.span_outline]
      omega
    · obtain rfl := List.mem_singleton.1 ho
      rw [right.span_outline]
      omega

mutual

/-- An expression stands among the tokens that it is read from, with all its parts.  The
induction is on the reading; parentheses only add tokens around an expression. -/
theorem Reads.among {far : List Located → List Located → Prop} :
    ∀ {rank : Nat} {ts rest : List Located} {e : Expr}, Reads far rank ts rest e →
      Ordered ts → e.outline.Among ts
  | _, _, _, _, .literal htoken, hts => Literal.among hts htoken
  | _, _, _, _, .var htoken, hts =>
    (Row.single (Name.among hts htoken)).whole hts (by simp) rfl
  | _, _, _, _, .call htoken hopen harguments hclose, hts => by
    have hcallee := Row.single (Name.among hts.left.head htoken)
    have hparts := hcallee.append hts.left (harguments.row hts.left.tail.tail).cons
    refine hparts.before.whole hts (by simp) ?_
    rw [stopOf_concat]
    rfl
  | _, _, _, _, .group hopen he hclose, hts =>
    (he.among hts.left.tail).mono fun t ht => by simp [ht]
  | _, _, _, _, .conditional hif hcondition hthen hconsequent helse halternative _, hts => by
    have hfirst := Row.single (hcondition.among hts.left.tail)
    have hsecond := Row.single (hconsequent.among hts.right.tail.left)
    have hthird := Row.single (halternative.among hts.right.tail.right.tail)
    have hbranches := hsecond.append hts.right.tail hthird.cons
    -- The alternative may end in parentheses; the span goes to the last token all the same.
    refine (hfirst.cons.append hts hbranches.cons).whole hts (by simp) ?_
    rw [stopOf_append _ (by simp), stopOf_cons _ (by simp), stopOf_append _ (by simp),
      stopOf_cons _ halternative.ne_nil]
    rfl
  | _, _, _, _, .sign hsign hoperand, hts =>
    Expr.among_unary hts (hoperand.among hts.tail) _
  | _, _, _, _, .binary hleft hop hright, hts =>
    Expr.among_binary hts (hleft.among hts.left) (hright.among hts.right.tail) _
  | _, _, _, _, .tighter h, hts => h.among hts

theorem ReadsArguments.row {far : List Located → List Located → Prop} :
    ∀ {ts rest : List Located} {arguments : List Expr}, ReadsArguments far ts rest arguments →
      Ordered ts → Row ts (outlinesOfEach arguments)
  | _, _, _, .none, _ => Row.nil _
  | _, _, _, .last h, hts => Row.single (h.among hts)
  | _, _, _, .more h _ hothers, hts =>
    (Row.single (h.among hts.left)).append hts (hothers.row hts.right.tail).cons

end

/-! ## Items -/

theorem ReadsAscription.span {ts : List Located} {ascription : Ascription}
    (h : ReadsAscription ts ascription) : ascription.span = ⟨startOf ts, stopOf ts⟩ := by
  induction h with
  | base => rfl
  | @bar ts ascription bar t base h hbar ht ih =>
    rw [ih, show ts ++ [bar, t] = ts ++ [bar] ++ [t] by simp, stopOf_concat]
    cases ts with
    | nil => exact absurd rfl h.ne_nil
    | cons first rest => rfl

theorem ReadsAscription.among {ts : List Located} {ascription : Ascription}
    (h : ReadsAscription ts ascription) (hts : Ordered ts) : ascription.outline.Among ts :=
  (Row.nil ts).whole hts h.ne_nil h.span

theorem ReadsParameter.row {ts : List Located} {parameter : Parameter}
    (h : ReadsParameter ts parameter) (hts : Ordered ts) : Row ts parameter.outlines := by
  cases h with
  | bare htoken => exact Row.single (Name.among hts htoken)
  | ascribed htoken hcolon hascription =>
    have hname := Row.single (Name.among hts.head htoken)
    exact hname.append hts (Row.single (hascription.among hts.tail.tail)).cons

theorem ReadsParameters.row {ts : List Located} {parameters : List Parameter}
    (h : ReadsParameters ts parameters) :
    Ordered ts → Row ts (parameters.flatMap Parameter.outlines) := by
  induction h with
  | none => exact fun _ => Row.nil _
  | last h =>
    intro hts
    simpa using h.row hts
  | more h hcomma hothers ih =>
    intro hts
    exact (h.row hts.left).append hts (ih hts.right.tail).cons

theorem ReadsInitializer.row {far : List Located → List Located → Prop}
    {ts rest : List Located} {initializer : Option Expr}
    (h : ReadsInitializer far ts rest initializer) (hts : Ordered ts) :
    Row ts (initializer.toList.map Expr.outline) := by
  cases h with
  | absent => exact Row.nil _
  | present hassign he => exact (Row.single (he.among hts.tail)).cons

mutual

/-- An item stands among the tokens that it is read from, with all its parts. -/
theorem ReadsItem.among {far : List Located → List Located → Prop} :
    ∀ {ts rest : List Located} {item : Item}, ReadsItem far ts rest item →
      Ordered ts → item.outline.Among ts
  | _, _, _, .var hvar htoken hcolon hascription hinitializer hsemicolon, hts => by
    have hbody := hts.tail.tail.tail.left
    have hname := Row.single (Name.among hts.tail.head htoken)
    have hparts := (Row.single (hascription.among hbody.left)).append hbody
      (hinitializer.row hbody.right)
    refine (hname.append hts.tail hparts.before.cons).cons.whole hts (by simp) ?_
    rw [stopOf_cons _ (by simp), stopOf_cons _ (by simp), stopOf_cons _ (by simp), stopOf_concat]
    rfl
  | _, _, _, .fn hfn htoken hopen hparameters hclose harrow hresult hsemicolon, hts => by
    have hbody := hts.tail.tail.tail
    have hname := Row.single (Name.among hts.tail.head htoken)
    have hlast := Row.single (hresult.among hbody.right.tail.tail.left)
    have hparts := (hparameters.row hbody.left).append hbody hlast.before.cons.cons
    refine (hname.append hts.tail hparts.cons).cons.whole hts (by simp) ?_
    rw [stopOf_cons _ (by simp), stopOf_cons _ (by simp), stopOf_cons _ (by simp),
      stopOf_append _ (by simp), stopOf_cons _ (by simp), stopOf_cons _ (by simp), stopOf_concat]
    rfl
  | _, _, _, .block hopen hitems hclose, hts => by
    refine (hitems.row hts.left.tail).cons.before.whole hts (by simp) ?_
    rw [stopOf_concat]
    rfl
  | _, _, _, .expr he hsemicolon, hts =>
    (he.among hts.left).mono (List.subset_append_left _ _)

/-- Items stand one after the other among the tokens that they are read from. -/
theorem ReadsItems.row {far : List Located → List Located → Prop} :
    ∀ {ts rest : List Located} {items : List Item}, ReadsItems far ts rest items →
      Ordered ts → Row ts (outlinesOfItems items)
  | _, _, _, .nil, _ => Row.nil _
  | _, _, _, .cons h hothers, hts =>
    (Row.single (h.among hts.left)).append hts (hothers.row hts.right)

end

/-! ## Variables -/

mutual

/-- The variables in an expression, each with the span of its node. -/
def Expr.variables : Expr → List (Name × Span)
  | .literal _ _ => []
  | .var name span => [(name, span)]
  | .call _ arguments _ => variablesOfEach arguments
  | .unary _ operand _ => operand.variables
  | .binary _ left right _ => left.variables ++ right.variables
  | .conditional condition consequent alternative _ =>
    condition.variables ++ (consequent.variables ++ alternative.variables)

/-- The variables in several expressions. -/
def variablesOfEach : List Expr → List (Name × Span)
  | [] => []
  | e :: rest => e.variables ++ variablesOfEach rest

end

mutual

/-- The variables in the expressions of an item. -/
def Item.variables : Item → List (Name × Span)
  | .var declaration => declaration.initializer.toList.flatMap Expr.variables
  | .fn _ => []
  | .block items _ => variablesOfItems items
  | .expr e => e.variables

/-- The variables in several items. -/
def variablesOfItems : List Item → List (Name × Span)
  | [] => []
  | item :: rest => item.variables ++ variablesOfItems rest

end

/-- The variables in a program, each with the span of its node. -/
def Program.variables (program : Program) : List (Name × Span) :=
  variablesOfItems program.items

/-- Each variable has the span of its name. -/
def SpannedByName (found : List (Name × Span)) : Prop :=
  ∀ name span, (name, span) ∈ found → span = name.span

namespace SpannedByName

theorem nil : SpannedByName [] := by
  intro name span hmem
  contradiction

theorem append {first second : List (Name × Span)} (hfirst : SpannedByName first)
    (hsecond : SpannedByName second) : SpannedByName (first ++ second) := by
  intro name span hmem
  exact (List.mem_append.1 hmem).elim (hfirst name span) (hsecond name span)

end SpannedByName

mutual

/-- The variables of an expression that is read have the spans of their names.  A variable is
one token, which gives both spans. -/
theorem Reads.spannedByName {far : List Located → List Located → Prop} :
    ∀ {rank : Nat} {ts rest : List Located} {e : Expr}, Reads far rank ts rest e →
      SpannedByName e.variables
  | _, _, _, _, .literal _ => .nil
  | _, _, _, _, .var _ => by
    intro name span hmem
    rw [Expr.variables, List.mem_singleton] at hmem
    cases hmem
    rfl
  | _, _, _, _, .call _ _ harguments _ => by
    rw [Expr.variables]
    exact harguments.spannedByName
  | _, _, _, _, .group _ he _ => he.spannedByName
  | _, _, _, _, .conditional _ hcondition _ hconsequent _ halternative _ => by
    rw [Expr.variables]
    exact hcondition.spannedByName.append
      (hconsequent.spannedByName.append halternative.spannedByName)
  | _, _, _, _, .sign _ hoperand => by
    rw [Expr.variables]
    exact hoperand.spannedByName
  | _, _, _, _, .binary hleft _ hright => by
    rw [Expr.variables]
    exact hleft.spannedByName.append hright.spannedByName
  | _, _, _, _, .tighter h => h.spannedByName

/-- The same for the arguments of a call. -/
theorem ReadsArguments.spannedByName {far : List Located → List Located → Prop} :
    ∀ {ts rest : List Located} {arguments : List Expr}, ReadsArguments far ts rest arguments →
      SpannedByName (variablesOfEach arguments)
  | _, _, _, .none => .nil
  | _, _, _, .last h => by
    rw [variablesOfEach, variablesOfEach]
    exact h.spannedByName.append .nil
  | _, _, _, .more h _ hothers => by
    rw [variablesOfEach]
    exact h.spannedByName.append hothers.spannedByName

end

theorem ReadsInitializer.spannedByName {far : List Located → List Located → Prop}
    {ts rest : List Located} {initializer : Option Expr}
    (h : ReadsInitializer far ts rest initializer) :
    SpannedByName (initializer.toList.flatMap Expr.variables) := by
  cases h with
  | absent => exact .nil
  | present _ he => simpa using he.spannedByName

mutual

/-- The same for an item. -/
theorem ReadsItem.spannedByName {far : List Located → List Located → Prop} :
    ∀ {ts rest : List Located} {item : Item}, ReadsItem far ts rest item →
      SpannedByName item.variables
  | _, _, _, .var _ _ _ _ hinitializer _ => by
    rw [Item.variables]
    exact hinitializer.spannedByName
  | _, _, _, .fn _ _ _ _ _ _ _ _ => .nil
  | _, _, _, .block _ hitems _ => by
    rw [Item.variables]
    exact hitems.spannedByName
  | _, _, _, .expr he _ => by
    rw [Item.variables]
    exact he.spannedByName

/-- The same for several items. -/
theorem ReadsItems.spannedByName {far : List Located → List Located → Prop} :
    ∀ {ts rest : List Located} {items : List Item}, ReadsItems far ts rest items →
      SpannedByName (variablesOfItems items)
  | _, _, _, .nil => .nil
  | _, _, _, .cons h hothers => by
    rw [variablesOfItems]
    exact h.spannedByName.append hothers.spannedByName

end

/-! ## Sources -/

/-- A node that stands in a source as it claims: among its tokens, inside the text, and at
the word that it names. -/
structure Outline.Placed (source : String) (node : Outline) : Prop
    extends node.Sited (tokens source) where
  inside : node.span.stop ≤ source.utf8ByteSize
  holds : ∀ word, node.word? = some word → node.span.Holds source word

theorem Outline.Sited.placed {source : String} {node : Outline}
    (h : node.Sited (tokens source)) : node.Placed source where
  toSited := h
  inside := by
    obtain ⟨t, ht, hstop⟩ := h.stops
    rw [← hstop]
    exact (inText_of_mem_tokens ht).1.inside
  holds := by
    intro word hword
    obtain ⟨t, ht, hspan, htoken⟩ := h.word word hword
    rw [← hspan]
    exact (holds_of_mem_tokens ht htoken).1

/-- The outlines of a program that is read from tokens form a row among them. -/
theorem Program.row_outlines {length : Nat} {ts : List Located} {program : Program}
    (h : Program.ofTokens length ts = .ok program) (hts : Ordered ts) :
    Row ts program.outlines :=
  (ofTokens_eq_ok_iff.1 h).2.row hts

/-- All nodes of a program that is read from tokens stand among them. -/
theorem Program.sited_of_mem_nodes {length : Nat} {ts : List Located} {program : Program}
    (h : Program.ofTokens length ts = .ok program) (hts : Ordered ts) :
    ∀ node ∈ program.nodes, node.Sited ts := by
  intro node hnode
  obtain ⟨outline, houtline, hnode⟩ := Outline.mem_nodesOfEach.1 hnode
  exact (Program.row_outlines h hts).among outline houtline node hnode

/-- The spans of a program that was read are right.  Every item, name, ascription and
expression in it takes some bytes of the source, from the start of a token to the end of a
token.  Its parts lie inside it, one after the other; the items of the program come one
after the other too.  Where a name or an integer claims to stand, its text stands.  The node
of a variable has the span of its name. -/
theorem parse_outline_placed {log : Log} {limit : Nat} {source : String} {program : Program}
    (h : (log.parse limit source).1 = some program) :
    (∀ node ∈ program.nodes, node.Placed source) ∧
    (program.outlines.Pairwise fun first second => first.span.Before second.span) ∧
    ∀ name span, (name, span) ∈ program.variables → span = name.span := by
  obtain ⟨-, hread, -, -⟩ := Log.parse_eq_some_iff.1 h
  have hts := ordered_tokens source
  exact ⟨fun node hnode => (Program.sited_of_mem_nodes hread hts node hnode).placed,
    (Program.row_outlines hread hts).ordered, (ofTokens_eq_ok_iff.1 hread).2.spannedByName⟩

/-- A call after a comment that has more bytes than characters.  The parentheses around the
first argument belong to the call and not to the argument. -/
theorem parse_outline_placed_call :
    ∃ program, (Log.empty.parse 8 "/*é*/ f((a), -1);").1 = some program ∧
      program.nodes.map Outline.span =
        [⟨7, 17⟩, ⟨7, 8⟩, ⟨10, 11⟩, ⟨10, 11⟩, ⟨14, 16⟩, ⟨15, 16⟩] ∧
      (∀ node ∈ program.nodes, node.Placed "/*é*/ f((a), -1);") ∧
      (program.outlines.Pairwise fun first second => first.span.Before second.span) ∧
      (⟨"a", ⟨10, 11⟩⟩, ⟨10, 11⟩) ∈ program.variables ∧
      ∀ name span, (name, span) ∈ program.variables → span = name.span := by
  have hspans : (Log.empty.parse 8 "/*é*/ f((a), -1);").1.map
      (fun program => program.nodes.map Outline.span) =
        some [⟨7, 17⟩, ⟨7, 8⟩, ⟨10, 11⟩, ⟨10, 11⟩, ⟨14, 16⟩, ⟨15, 16⟩] := by decide +kernel
  obtain ⟨program, hprogram, hprogramSpans⟩ := Option.map_eq_some_iff.1 hspans
  have hvariable : (⟨"a", ⟨10, 11⟩⟩, ⟨10, 11⟩) ∈ program.variables := by
    have hall : (Log.empty.parse 8 "/*é*/ f((a), -1);").1.map Program.variables =
        some [(⟨"a", ⟨10, 11⟩⟩, ⟨10, 11⟩)] := by decide +kernel
    rw [hprogram, Option.map_some, Option.some.injEq] at hall
    rw [hall]
    exact List.mem_singleton_self _
  obtain ⟨hplaced, hordered, hnames⟩ := parse_outline_placed hprogram
  exact ⟨program, hprogram, hprogramSpans, hplaced, hordered, hvariable, hnames⟩

end TagLang
