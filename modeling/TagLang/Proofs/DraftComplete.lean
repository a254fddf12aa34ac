import TagLang.Proofs.Precedence
import TagLang.Tree.Draft

/-!
# What the grammar reads, drafts accept

Reading goes from stage to stage, one token at a time.  This module follows a
derivation of the grammar and shows where the stages end up.  The alternatives of
conditionals are those of `AtEnd`: a conditional is settled only when a token ends
it, so an operator after it would not be an operator of the conditional.

* `Stage.advance` runs an item over several tokens.
* `Stage.Awaits` says what a stage does with the next token once an operand is
  complete.  It does not say which stage that is: a conditional without parentheses
  is still open then.
* `Feeds` is what a derivation of an expression means for the stages, and
  `Reads.feeds` proves it by induction on the derivation.
* `ReadsItems.readAll` and `ReadsItems.ofTokens` are the results for items and
  programs.
-/

namespace TagLang

/-! ## Tokens -/

@[simp]
theorem BinaryOp.binaryOp?_token (op : BinaryOp) : op.token.binaryOp? = some op := by
  cases op <;> rfl

theorem Token.eq_token_of_binaryOp? {token : Token} {op : BinaryOp}
    (h : token.binaryOp? = some op) : token = op.token := by
  cases token <;> simp [Token.binaryOp?] at h <;> subst h <;> rfl

theorem BinaryOp.endsExpr_token (op : BinaryOp) : op.token.endsExpr = false := by
  cases op <;> rfl

theorem Token.binaryOp?_of_endsExpr {token : Token} (h : token.endsExpr = true) :
    token.binaryOp? = none := by
  cases token <;> simp [Token.endsExpr] at h <;> rfl

theorem stopOf_append (ts : List Located) {us : List Located} (h : us ≠ []) :
    stopOf (ts ++ us) = stopOf us := by
  rw [stopOf, stopOf, List.getLast?_append, List.getLast?_eq_some_getLast h, Option.some_or]

theorem stopOf_cons (t : Located) {us : List Located} (h : us ≠ []) :
    stopOf (t :: us) = stopOf us :=
  stopOf_append [t] h

theorem stopOf_concat (ts : List Located) (t : Located) : stopOf (ts ++ [t]) = t.span.stop := by
  simp [stopOf]

theorem Reads.ne_nil {far : List Located → List Located → Prop} :
    ∀ {rank : Nat} {ts rest : List Located} {e : Expr}, Reads far rank ts rest e → ts ≠ []
  | _, _, _, _, .literal _ => by simp
  | _, _, _, _, .var _ => by simp
  | _, _, _, _, .call _ _ _ _ => by simp
  | _, _, _, _, .group _ _ _ => by simp
  | _, _, _, _, .conditional _ _ _ _ _ _ _ => by simp
  | _, _, _, _, .sign _ _ => by simp
  | _, _, _, _, .binary _ _ _ => by simp
  | _, _, _, _, .tighter h => h.ne_nil

/-! ## Stages over several tokens -/

/-- The stage after some tokens, if the item goes on at each of them, and the end of
the last token. -/
def Stage.advance (stop : Nat) (stage : Stage) : List Located → Option (Stage × Nat)
  | [] => some (stage, stop)
  | t :: rest =>
    match stage.move stop t with
    | some (.proceed next) => next.advance t.span.stop rest
    | _ => none

theorem Stage.advance_cons {stop : Nat} {stage next : Stage} {t : Located}
    (h : stage.move stop t = some (.proceed next)) (rest : List Located) :
    stage.advance stop (t :: rest) = next.advance t.span.stop rest := by
  rw [Stage.advance, h]

theorem Stage.advance_append (stop : Nat) (stage : Stage) (ts us : List Located) :
    stage.advance stop (ts ++ us) =
      (stage.advance stop ts).bind fun reached => reached.1.advance reached.2 us := by
  induction ts generalizing stop stage with
  | nil => rfl
  | cons t ts ih =>
    rw [List.cons_append, Stage.advance, Stage.advance]
    cases stage.move stop t with
    | none => rfl
    | some move =>
      cases move with
      | proceed next => exact ih t.span.stop next
      | finish item => rfl
      | enter => rfl
      | leave => rfl

theorem Stage.advance_trans {stop stop' : Nat} {stage reached : Stage} {ts : List Located}
    (h : stage.advance stop ts = some (reached, stop')) (us : List Located) :
    stage.advance stop (ts ++ us) = reached.advance stop' us := by
  rw [Stage.advance_append, h, Option.bind_some]

theorem Stage.advance_concat {stop stop' : Nat} {stage reached next : Stage}
    {ts : List Located} {t : Located} (h : stage.advance stop ts = some (reached, stop'))
    (hmove : reached.move stop' t = some (.proceed next)) :
    stage.advance stop (ts ++ [t]) = some (next, t.span.stop) := by
  rw [Stage.advance_trans h, Stage.advance_cons hmove, Stage.advance]

/-! ## Complete operands -/

/-- The earlier operands, and the last one, after a chain was read. -/
def pushAll (done : List (Expr × BinaryOp)) (first : Expr) :
    List (BinaryOp × Expr) → List (Expr × BinaryOp) × Expr
  | [] => (done, first)
  | (op, next) :: links => pushAll ((first, op) :: done) next links

theorem pushAll_append (done : List (Expr × BinaryOp)) (first next : Expr) (op : BinaryOp)
    (before after : List (BinaryOp × Expr)) :
    pushAll done first (before ++ (op, next) :: after) =
      pushAll (((pushAll done first before).2, op) :: (pushAll done first before).1) next
        after := by
  induction before generalizing done first with
  | nil => rfl
  | cons link before ih => exact ih _ _

/-- The chain that was read is the flat form of what is kept of it. -/
theorem flat_pushAll (done : List (Expr × BinaryOp)) (first : Expr)
    (links : List (BinaryOp × Expr)) :
    Chain.flat ⟨(pushAll done first links).1, []⟩ (pushAll done first links).2 =
      done.foldl (fun flat link => (link.1, (link.2, flat.1) :: flat.2)) (first, links) := by
  induction links generalizing done first with
  | nil => rfl
  | cons link links ih => exact ih ((first, link.1) :: done) link.2

/-- A complete expression that is the last part of every conditional in `pending`
that waits for an alternative. -/
def conclude (stop : Nat) : List Pending → Expr → List Pending × Expr
  | ⟨.alternative start condition consequent, around⟩ :: pending, e =>
    settle stop pending around (.conditional condition consequent e ⟨start, stop⟩)
  | pending, e => (pending, e)

theorem settle_eq_conclude (stop : Nat) (pending : List Pending) (chain : Chain) (atom : Expr) :
    settle stop pending chain atom = conclude stop pending (chain.close atom) := by
  rcases pending with _ | ⟨⟨opener, around⟩, pending⟩
  · rfl
  · cases opener <;> rfl

/-- Only the operand that an atom makes matters. -/
theorem settle_operand (stop : Nat) (pending : List Pending) (chain : Chain) (atom : Expr) :
    settle stop pending chain atom = settle stop pending ⟨chain.done, []⟩ (chain.operand atom) := by
  rw [settle_eq_conclude, settle_eq_conclude]
  rfl

theorem settle_pushAll (stop : Nat) (pending : List Pending) (first : Expr)
    (links : List (BinaryOp × Expr)) :
    settle stop pending ⟨(pushAll [] first links).1, []⟩ (pushAll [] first links).2 =
      conclude stop pending (assemble (first, links)) := by
  rw [settle_eq_conclude, Chain.close, flat_pushAll, List.foldl_nil]

/-- What a stage does after the operand `last` of a chain, whose earlier operands are
`done`.  An operator makes the chain longer, and a token that ends expressions closes
it together with the conditionals it belongs to. -/
structure Stage.Awaits (stage : Stage) (stop : Nat) (goal : Goal) (pending : List Pending)
    (done : List (Expr × BinaryOp)) (last : Expr) (next : Located) : Prop where
  operator : ∀ op : BinaryOp, next.token = op.token →
    stage.move stop next = some (.proceed (.operand goal pending ⟨(last, op) :: done, []⟩))
  ending : next.token.endsExpr = true →
    stage.move stop next =
      Stage.moveEnd goal (settle stop pending ⟨done, []⟩ last).1
        (settle stop pending ⟨done, []⟩ last).2 next

theorem Stage.moveOperator_operator {next : Located} {op : BinaryOp} (h : next.token = op.token)
    (stop : Nat) (goal : Goal) (pending : List Pending) (chain : Chain) (atom : Expr)
    (callee : Option Name) :
    Stage.moveOperator stop goal pending chain atom callee next =
      some (.proceed (.operand goal pending (chain.extend atom op))) := by
  unfold Stage.moveOperator
  rw [h, op.binaryOp?_token]

theorem Stage.moveOperator_ending {next : Located} (h : next.token.endsExpr = true)
    (stop : Nat) (goal : Goal) (pending : List Pending) (chain : Chain) (atom : Expr)
    (callee : Option Name) :
    Stage.moveOperator stop goal pending chain atom callee next =
      Stage.moveEnd goal (settle stop pending chain atom).1
        (settle stop pending chain atom).2 next := by
  unfold Stage.moveOperator
  rw [Token.binaryOp?_of_endsExpr h]
  split
  · simp_all
  · simp_all [Token.endsExpr]
  · rfl

/-- An operand that is one atom leaves a stage that waits for what follows it. -/
theorem Stage.awaits_atom (stop : Nat) (goal : Goal) (pending : List Pending) (chain : Chain)
    (atom : Expr) (callee : Option Name) (next : Located) :
    (Stage.operator goal pending chain atom callee).Awaits stop goal pending chain.done
      (chain.operand atom) next where
  operator _ h := Stage.moveOperator_operator h stop goal pending chain atom callee
  ending h := by
    rw [← settle_operand]
    exact Stage.moveOperator_ending h stop goal pending chain atom callee

/-! ## Expressions -/

theorem Stage.move_literal {t : Located} {value : Literal} (h : t.token = value.token)
    (stop : Nat) (goal : Goal) (pending : List Pending) (chain : Chain) :
    (Stage.operand goal pending chain).move stop t =
      some (.proceed (.operator goal pending chain (.literal value t.span) none)) := by
  simp only [Stage.move, Stage.moveOperand, h]
  cases value <;> rfl

theorem Stage.move_name {t : Located} {text : String} (h : t.token = .name text)
    (stop : Nat) (goal : Goal) (pending : List Pending) (chain : Chain) :
    (Stage.operand goal pending chain).move stop t =
      some (.proceed (.operator goal pending chain (.var ⟨text, t.span⟩ t.span)
        (some ⟨text, t.span⟩))) := by
  simp only [Stage.move, Stage.moveOperand, h, Option.map_some]

theorem Stage.move_if {t : Located} (h : t.token = .kwIf)
    (stop : Nat) (goal : Goal) (pending : List Pending) (chain : Chain) :
    (Stage.operand goal pending chain).move stop t =
      some (.proceed (.operand goal (⟨.condition t.span.start, chain⟩ :: pending) .empty)) := by
  simp only [Stage.move, Stage.moveOperand, h, Option.map_some]

theorem Stage.move_group {t : Located} (h : t.token = .leftParen)
    (stop : Nat) (goal : Goal) (pending : List Pending) (chain : Chain) :
    (Stage.operand goal pending chain).move stop t =
      some (.proceed (.operand goal (⟨.group, chain⟩ :: pending) .empty)) := by
  simp only [Stage.move, Stage.moveOperand, h, Option.map_some]

theorem Stage.move_sign {t : Located} {op : UnaryOp} (h : t.token = op.token)
    (stop : Nat) (goal : Goal) (pending : List Pending) (chain : Chain) :
    (Stage.operand goal pending chain).move stop t =
      some (.proceed (.operand goal pending (chain.sign op t.span))) := by
  simp only [Stage.move, Stage.moveOperand, h]
  cases op <;> rfl

theorem Stage.move_call {t : Located} (h : t.token = .leftParen)
    (stop : Nat) (goal : Goal) (pending : List Pending) (chain : Chain) (atom : Expr)
    (callee : Name) :
    (Stage.operator goal pending chain atom (some callee)).move stop t =
      some (.proceed (.operand goal (⟨.arguments callee [], chain⟩ :: pending) .empty)) := by
  simp only [Stage.move, Stage.moveOperator, h, Token.binaryOp?]

/-- What the tokens of an expression do to the stages.  The expression is assembled
from a chain, and a stage that waits for an operand goes over the tokens to one that
has the whole chain. -/
def Feeds (rank : Nat) (ts rest : List Located) (e : Expr) : Prop :=
  ∃ first links, assemble (first, links) = e ∧
    (∀ link ∈ links, rank ≤ link.1.level.rank) ∧
    ∀ stop goal pending chain, ∃ stage,
      (Stage.operand goal pending chain).advance stop ts = some (stage, stopOf ts) ∧
      ∀ next after, rest = next :: after →
        stage.Awaits (stopOf ts) goal pending
          (pushAll chain.done (chain.operand first) links).1
          (pushAll chain.done (chain.operand first) links).2 next

/-- What the tokens of an argument list and the parenthesis after them do. -/
def FeedsArguments (us rest : List Located) (arguments : List Expr) : Prop :=
  ∀ stop goal pending around callee given close after, rest = close :: after →
    close.token = .rightParen →
    (Stage.operand goal (⟨.arguments callee given, around⟩ :: pending) .empty).advance stop
      (us ++ [close]) =
      some (.called goal pending around callee (given.reverse ++ arguments) close.span.stop,
        close.span.stop)

/-- An atom is a chain of one operand. -/
theorem Feeds.atom {rank : Nat} {ts rest : List Located} {e : Expr}
    (h : ∀ stop goal pending chain, ∃ callee,
      (Stage.operand goal pending chain).advance stop ts =
        some (.operator goal pending chain e callee, stopOf ts)) :
    Feeds rank ts rest e := by
  refine ⟨e, [], rfl, by simp, fun stop goal pending chain => ?_⟩
  obtain ⟨callee, hadvance⟩ := h stop goal pending chain
  exact ⟨_, hadvance, fun next after _ =>
    Stage.awaits_atom (stopOf ts) goal pending chain e callee next⟩

/-- A whole expression before a token that ends it. -/
theorem Feeds.ending {rank : Nat} {ts after : List Located} {next : Located} {e : Expr}
    (h : Feeds rank ts (next :: after) e) (hnext : next.token.endsExpr = true)
    (stop : Nat) (goal : Goal) (pending : List Pending) :
    ∃ stage, (Stage.operand goal pending .empty).advance stop ts = some (stage, stopOf ts) ∧
      stage.move (stopOf ts) next =
        Stage.moveEnd goal (conclude (stopOf ts) pending e).1
          (conclude (stopOf ts) pending e).2 next := by
  obtain ⟨first, links, rfl, _, hfeeds⟩ := h
  obtain ⟨stage, hadvance, hawaits⟩ := hfeeds stop goal pending .empty
  refine ⟨stage, hadvance, ?_⟩
  rw [(hawaits next after rfl).ending hnext, ← settle_pushAll]
  rfl

/-- A whole expression together with the token that ends it. -/
theorem Feeds.proceed {rank : Nat} {ts after : List Located} {next : Located} {e : Expr}
    (h : Feeds rank ts (next :: after) e) (hnext : next.token.endsExpr = true)
    (goal : Goal) (pending : List Pending) {stage : Stage}
    (hend : Stage.moveEnd goal (conclude (stopOf ts) pending e).1
      (conclude (stopOf ts) pending e).2 next = some (.proceed stage)) (stop : Nat) :
    (Stage.operand goal pending .empty).advance stop (ts ++ [next]) =
      some (stage, next.span.stop) := by
  obtain ⟨reached, hadvance, hmove⟩ := h.ending hnext stop goal pending
  exact Stage.advance_concat hadvance (hmove.trans hend)

theorem Feeds.group {open_ close : Located} {us rest : List Located} {e : Expr}
    (hopen : open_.token = .leftParen) (h : Feeds 0 us (close :: rest) e)
    (hclose : close.token = .rightParen) : Feeds 7 (open_ :: us ++ [close]) rest e := by
  refine Feeds.atom fun stop goal pending chain => ⟨none, ?_⟩
  rw [List.cons_append, Stage.advance_cons (Stage.move_group hopen stop goal pending chain),
    stopOf_cons _ (by simp), stopOf_concat]
  refine h.proceed (by rw [hclose]; rfl) goal _ ?_ _
  simp only [conclude, Stage.moveEnd, hclose]

theorem Feeds.call {t open_ close : Located} {us rest : List Located} {text : String}
    {arguments : List Expr} (ht : t.token = .name text) (hopen : open_.token = .leftParen)
    (h : FeedsArguments us (close :: rest) arguments) (hclose : close.token = .rightParen) :
    Feeds 7 (t :: open_ :: us ++ [close]) rest
      (.call ⟨text, t.span⟩ arguments ⟨t.span.start, close.span.stop⟩) := by
  refine Feeds.atom fun stop goal pending chain => ⟨none, ?_⟩
  rw [List.cons_append, List.cons_append,
    Stage.advance_cons (Stage.move_name ht stop goal pending chain),
    Stage.advance_cons (Stage.move_call hopen _ goal pending chain _ _),
    h _ goal pending chain _ [] close rest rfl hclose, stopOf_cons _ (by simp),
    stopOf_cons _ (by simp), stopOf_concat]
  rfl

/-- The alternative leaves the conditional open; the token after it closes both. -/
theorem Feeds.conditional {if_ then_ else_ : Located} {cs bs as rest : List Located}
    {condition consequent alternative : Expr} (hif : if_.token = .kwIf)
    (hcondition : Feeds 0 cs (then_ :: (bs ++ else_ :: (as ++ rest))) condition)
    (hthen : then_.token = .kwThen) (hconsequent : Feeds 0 bs (else_ :: (as ++ rest)) consequent)
    (helse : else_.token = .kwElse) (halternative : Feeds 0 as rest alternative)
    (has : as ≠ []) (hend : AtEnd as rest) :
    Feeds 7 (if_ :: cs ++ then_ :: (bs ++ else_ :: as)) rest
      (.conditional condition consequent alternative ⟨if_.span.start, stopOf as⟩) := by
  refine ⟨_, [], rfl, by simp, fun stop goal pending chain => ?_⟩
  obtain ⟨next, after, rfl, hnext⟩ := hend
  have hsplit : if_ :: cs ++ then_ :: (bs ++ else_ :: as) =
      if_ :: ((cs ++ [then_]) ++ ((bs ++ [else_]) ++ as)) := by simp
  have hstop : stopOf (if_ :: ((cs ++ [then_]) ++ ((bs ++ [else_]) ++ as))) = stopOf as := by
    rw [stopOf_cons _ (by simp), stopOf_append _ (by simp), stopOf_append _ has]
  have htest := hcondition.proceed (by rw [hthen]; rfl) goal
    (⟨.condition if_.span.start, chain⟩ :: pending)
    (by simp only [conclude, Stage.moveEnd, hthen]; rfl) if_.span.stop
  have hbranch := hconsequent.proceed (by rw [helse]; rfl) goal
    (⟨.consequent if_.span.start condition, chain⟩ :: pending)
    (by simp only [conclude, Stage.moveEnd, helse]; rfl) then_.span.stop
  obtain ⟨stage, hadvance, hmove⟩ := halternative.ending hnext else_.span.stop goal
    (⟨.alternative if_.span.start condition consequent, chain⟩ :: pending)
  refine ⟨stage, ?_, fun next' after' heq => ⟨fun op hop => ?_, fun _ => ?_⟩⟩
  · rw [hsplit, hstop, Stage.advance_cons (Stage.move_if hif stop goal pending chain),
      Stage.advance_trans htest, Stage.advance_trans hbranch, hadvance]
  · -- No operator follows: the alternative would have taken it.
    obtain ⟨rfl, rfl⟩ := List.cons.inj heq
    rw [hop, op.endsExpr_token] at hnext
    contradiction
  · obtain ⟨rfl, rfl⟩ := List.cons.inj heq
    rw [hsplit, hstop, hmove, conclude, settle_operand]
    rfl

theorem Feeds.sign {t : Located} {ts rest : List Located} {op : UnaryOp} {operand : Expr}
    (ht : t.token = op.token) (h : Feeds 6 ts rest operand) (hts : ts ≠ []) :
    Feeds 6 (t :: ts) rest (.unary op operand (t.span.hull operand.span)) := by
  obtain ⟨first, links, rfl, hranks, hfeeds⟩ := h
  -- No operator has rank 6, so the operand of the sign is one atom with its signs.
  obtain rfl : links = [] := by
    refine List.eq_nil_iff_forall_not_mem.2 fun link hlink => ?_
    have hrank := hranks link hlink
    have hlt := link.1.level.rank_lt
    omega
  refine ⟨first.apply op t.span, [], rfl, by simp, fun stop goal pending chain => ?_⟩
  rw [stopOf_cons _ hts, Stage.advance_cons (Stage.move_sign ht stop goal pending chain)]
  exact hfeeds t.span.stop goal pending (chain.sign op t.span)

theorem Feeds.binary {o : Located} {ls rs rest : List Located} {op : BinaryOp}
    {left right : Expr} (hleft : Feeds op.level.rank ls (o :: (rs ++ rest)) left)
    (ho : o.token = op.token) (hright : Feeds (op.level.rank + 1) rs rest right)
    (hrs : rs ≠ []) :
    Feeds op.level.rank (ls ++ o :: rs) rest
      (.binary op left right (left.span.hull right.span)) := by
  obtain ⟨first, before, rfl, hbefore, hfeeds⟩ := hleft
  obtain ⟨second, after, rfl, hafter, hfeeds'⟩ := hright
  refine ⟨first, before ++ (op, second) :: after,
    assemble_append first second before after hbefore hafter, ?_, ?_⟩
  · intro link hlink
    rcases List.mem_append.1 hlink with hlink | hlink
    · exact hbefore link hlink
    · rcases List.mem_cons.1 hlink with rfl | hlink
      · exact Nat.le_refl _
      · exact Nat.le_of_lt (hafter link hlink)
  · intro stop goal pending chain
    obtain ⟨stage, hadvance, hawaits⟩ := hfeeds stop goal pending chain
    obtain ⟨stage', hadvance', hawaits'⟩ := hfeeds' o.span.stop goal pending
      ⟨((pushAll chain.done (chain.operand first) before).2, op) ::
        (pushAll chain.done (chain.operand first) before).1, []⟩
    refine ⟨stage', ?_, ?_⟩
    · rw [Stage.advance_trans hadvance,
        Stage.advance_cons ((hawaits o (rs ++ rest) rfl).operator op ho), hadvance',
        stopOf_append _ (by simp), stopOf_cons _ hrs]
    · rw [pushAll_append, stopOf_append _ (by simp), stopOf_cons _ hrs]
      exact hawaits'

theorem Feeds.tighter {rank : Nat} {ts rest : List Located} {e : Expr}
    (h : Feeds (rank + 1) ts rest e) : Feeds rank ts rest e := by
  obtain ⟨first, links, heq, hranks, hfeeds⟩ := h
  exact ⟨first, links, heq, fun link hlink => Nat.le_of_lt (hranks link hlink), hfeeds⟩

theorem FeedsArguments.none {rest : List Located} : FeedsArguments [] rest [] := by
  intro stop goal pending around callee given close after _ hclose
  have hmove : (Stage.operand goal (⟨.arguments callee given, around⟩ :: pending) .empty).move
      stop close =
        some (.proceed (.called goal pending around callee given.reverse close.span.stop)) := by
    simp only [Stage.move, Stage.moveOperand, hclose]
    rfl
  rw [List.nil_append, Stage.advance_cons hmove, Stage.advance, List.append_nil]

theorem FeedsArguments.last {ts rest : List Located} {e : Expr} (h : Feeds 0 ts rest e) :
    FeedsArguments ts rest [e] := by
  rintro stop goal pending around callee given close after rfl hclose
  refine h.proceed (by rw [hclose]; rfl) goal _ ?_ _
  simp only [conclude, Stage.moveEnd, hclose, List.reverse_cons]

theorem FeedsArguments.more {comma : Located} {ts us rest : List Located} {e : Expr}
    {others : List Expr} (h : Feeds 0 ts (comma :: (us ++ rest)) e)
    (hcomma : comma.token = .comma) (hothers : FeedsArguments us rest others) :
    FeedsArguments (ts ++ comma :: us) rest (e :: others) := by
  rintro stop goal pending around callee given close after rfl hclose
  have hfirst := h.proceed (by rw [hcomma]; rfl) goal
    (⟨.arguments callee given, around⟩ :: pending)
    (by simp only [conclude, Stage.moveEnd, hcomma]; rfl) stop
  have hsplit : ts ++ comma :: us ++ [close] = ts ++ [comma] ++ (us ++ [close]) := by simp
  rw [hsplit, Stage.advance_trans hfirst,
    hothers _ goal pending around callee (e :: given) close after rfl hclose]
  simp

mutual

/-- Every derivation of an expression feeds the stages. -/
theorem Reads.feeds : ∀ {rank : Nat} {ts rest : List Located} {e : Expr},
    Reads AtEnd rank ts rest e → Feeds rank ts rest e
  | _, _, _, _, .literal ht =>
    .atom fun stop goal pending chain =>
      ⟨none, Stage.advance_cons (Stage.move_literal ht stop goal pending chain) []⟩
  | _, _, _, _, .var ht =>
    .atom fun stop goal pending chain =>
      ⟨_, Stage.advance_cons (Stage.move_name ht stop goal pending chain) []⟩
  | _, _, _, _, .call ht hopen hus hclose => .call ht hopen hus.feeds hclose
  | _, _, _, _, .group hopen hus hclose => .group hopen hus.feeds hclose
  | _, _, _, _, .conditional hif hcs hthen hbs helse has hend =>
    .conditional hif hcs.feeds hthen hbs.feeds helse has.feeds has.ne_nil hend
  | _, _, _, _, .sign ht hts => .sign ht hts.feeds hts.ne_nil
  | _, _, _, _, .binary hls ho hrs => .binary hls.feeds ho hrs.feeds hrs.ne_nil
  | _, _, _, _, .tighter h => h.feeds.tighter

theorem ReadsArguments.feeds : ∀ {us rest : List Located} {es : List Expr},
    ReadsArguments AtEnd us rest es → FeedsArguments us rest es
  | _, _, _, .none => .none
  | _, _, _, .last h => .last h.feeds
  | _, _, _, .more h hcomma hothers => .more h.feeds hcomma hothers.feeds

end

/-! ## Declarations -/

theorem ReadsAscription.ne_nil {ts : List Located} {ascription : Ascription}
    (h : ReadsAscription ts ascription) : ts ≠ [] := by
  cases h <;> simp

theorem ReadsAscription.advance {ts : List Located} {ascription : Ascription}
    (h : ReadsAscription ts ascription) (stop : Nat) (site : Site) :
    (Stage.type site).advance stop ts = some (.typeMember site ascription, stopOf ts) := by
  induction h with
  | @base t base ht =>
    have hmove : (Stage.type site).move stop t =
        some (.proceed (.typeMember site ⟨[base], t.span⟩)) := by
      simp only [Stage.move, ht]
    exact Stage.advance_cons hmove []
  | @bar ts ascription bar t base _ hbar ht ih =>
    have hmove : (Stage.typeMember site ascription).move (stopOf ts) bar =
        some (.proceed (.typeBar site ascription)) := by
      simp only [Stage.move, hbar]
    have hmove' : (Stage.typeBar site ascription).move bar.span.stop t =
        some (.proceed (.typeMember site
          ⟨ascription.members ++ [base], ⟨ascription.span.start, t.span.stop⟩⟩)) := by
      simp only [Stage.move, ht]
    rw [Stage.advance_trans ih, Stage.advance_cons hmove, Stage.advance_cons hmove',
      Stage.advance, stopOf_append _ (by simp), stopOf_cons _ (by simp)]
    rfl

/-- A parameter with the token after it, which decides whether another may follow. -/
theorem ReadsParameter.advance {ts : List Located} {parameter : Parameter}
    (h : ReadsParameter ts parameter) (stop : Nat) (header : Header) {next : Located} :
    (next.token = .comma →
      (Stage.parameter header).advance stop (ts ++ [next]) =
        some (.parameter (header.add parameter.name parameter.ascription), next.span.stop)) ∧
    (next.token = .rightParen →
      (Stage.parameter header).advance stop (ts ++ [next]) =
        some (.arrow (header.add parameter.name parameter.ascription), next.span.stop)) := by
  cases h with
  | @bare t text ht =>
    have hname : (Stage.parameter header).move stop t =
        some (.proceed (.parameterName header ⟨text, t.span⟩)) := by
      simp only [Stage.move, ht]
    rw [List.cons_append, Stage.advance_cons hname]
    refine ⟨fun hnext => Stage.advance_cons ?_ [], fun hnext => Stage.advance_cons ?_ []⟩
    all_goals simp only [Stage.move, hnext]
  | @ascribed t colon text ts ascription ht hcolon hts =>
    have hname : (Stage.parameter header).move stop t =
        some (.proceed (.parameterName header ⟨text, t.span⟩)) := by
      simp only [Stage.move, ht]
    have htype : (Stage.parameterName header ⟨text, t.span⟩).move t.span.stop colon =
        some (.proceed (.type (.ofParameter header ⟨text, t.span⟩))) := by
      simp only [Stage.move, hcolon]
    rw [List.cons_append, List.cons_append, Stage.advance_cons hname, Stage.advance_cons htype]
    have hadvance := hts.advance colon.span.stop (.ofParameter header ⟨text, t.span⟩)
    refine ⟨fun hnext => Stage.advance_concat hadvance ?_,
      fun hnext => Stage.advance_concat hadvance ?_⟩
    all_goals simp only [Stage.move, hnext, Stage.moveAscribed]

theorem ReadsParameters.advance {ps : List Located} {parameters : List Parameter}
    (h : ReadsParameters ps parameters) (stop : Nat) (header : Header) {close : Located}
    (hclose : close.token = .rightParen) :
    (Stage.parameter header).advance stop (ps ++ [close]) =
      some (.arrow ⟨header.start, header.name, parameters.reverse ++ header.parameters⟩,
        close.span.stop) := by
  induction h generalizing stop header with
  | none =>
    have hmove : (Stage.parameter header).move stop close = some (.proceed (.arrow header)) := by
      simp only [Stage.move, hclose]
    exact Stage.advance_cons hmove []
  | last hparameter => exact (hparameter.advance stop header).2 hclose
  | @more comma ts us parameter others hparameter hcomma _ ih =>
    have hsplit : ts ++ comma :: us ++ [close] = ts ++ [comma] ++ (us ++ [close]) := by simp
    rw [hsplit, Stage.advance_trans ((hparameter.advance stop header).1 hcomma), ih]
    simp [Header.add]

/-! ## Items -/

/-- A token that can start an operand does so at the start of an item. -/
theorem Stage.move_item {stop : Nat} {t : Located} {move : Move}
    (h : (Stage.operand .statement [] .empty).move stop t = some move) :
    Stage.item.move stop t = some move := by
  obtain ⟨token, span⟩ := t
  cases token <;> simp_all [Stage.move, Stage.moveOperand]

theorem Stage.advance_item {stop : Nat} {ts : List Located} {reached : Stage × Nat}
    (hts : ts ≠ []) (h : (Stage.operand .statement [] .empty).advance stop ts = some reached) :
    Stage.item.advance stop ts = some reached := by
  cases ts with
  | nil => contradiction
  | cons t ts =>
    rw [Stage.advance] at h ⊢
    cases hmove : (Stage.operand .statement [] .empty).move stop t with
    | none => simp [hmove] at h
    | some move =>
      rw [Stage.move_item hmove]
      rwa [hmove] at h

theorem Draft.readAll_advance {stop stop' : Nat} {stage reached : Stage} {ts : List Located}
    (h : stage.advance stop ts = some (reached, stop')) (items : List Item)
    (blocks : List OpenBlock) (rest : List Located) :
    (Draft.mk items blocks stage stop).readAll (ts ++ rest) =
      (Draft.mk items blocks reached stop').readAll rest := by
  induction ts generalizing stop stage with
  | nil =>
    obtain ⟨rfl, rfl⟩ := Prod.mk.inj (Option.some.inj h)
    rfl
  | cons t ts ih =>
    rw [Stage.advance] at h
    rw [List.cons_append, Draft.readAll, Draft.read]
    cases hmove : stage.move stop t with
    | none => simp [hmove] at h
    | some move =>
      cases move with
      | proceed next =>
        rw [hmove] at h
        exact ih h
      | finish item => simp [hmove] at h
      | enter => simp [hmove] at h
      | leave => simp [hmove] at h

/-- An item that is read up to its last token, and that token. -/
theorem Draft.readAll_finish {stop stop' : Nat} {reached : Stage} {ts : List Located}
    {t : Located} {item : Item} (h : Stage.item.advance stop ts = some (reached, stop'))
    (hmove : reached.move stop' t = some (.finish item)) (items : List Item)
    (blocks : List OpenBlock) (rest : List Located) :
    (Draft.mk items blocks .item stop).readAll (ts ++ t :: rest) =
      (Draft.mk (item :: items) blocks .item t.span.stop).readAll rest := by
  rw [Draft.readAll_advance h, Draft.readAll, Draft.read, hmove]

theorem Draft.readAll_enter {t : Located} (h : t.token = .leftBrace) (items : List Item)
    (blocks : List OpenBlock) (stop : Nat) (rest : List Located) :
    (Draft.mk items blocks .item stop).readAll (t :: rest) =
      (Draft.mk [] (⟨t.span.start, items⟩ :: blocks) .item t.span.stop).readAll rest := by
  have hmove : Stage.item.move stop t = some .enter := by simp only [Stage.move, h]
  rw [Draft.readAll, Draft.read, hmove]

theorem Draft.readAll_leave {t : Located} (h : t.token = .rightBrace) (items before : List Item)
    (blocks : List OpenBlock) (start stop : Nat) (rest : List Located) :
    (Draft.mk items (⟨start, before⟩ :: blocks) .item stop).readAll (t :: rest) =
      (Draft.mk (.block items.reverse ⟨start, t.span.stop⟩ :: before) blocks .item
        t.span.stop).readAll rest := by
  have hmove : Stage.item.move stop t = some .leave := by simp only [Stage.move, h]
  rw [Draft.readAll, Draft.read, hmove]

theorem Draft.readAll_expr {ts rest : List Located} {semicolon : Located} {e : Expr}
    (h : Reads AtEnd 0 ts (semicolon :: rest) e) (hsemicolon : semicolon.token = .semicolon)
    (items : List Item) (blocks : List OpenBlock) (stop : Nat) :
    (Draft.mk items blocks .item stop).readAll (ts ++ semicolon :: rest) =
      (Draft.mk (.expr e :: items) blocks .item semicolon.span.stop).readAll rest := by
  obtain ⟨stage, hadvance, hmove⟩ := h.feeds.ending (by rw [hsemicolon]; rfl) stop .statement []
  refine Draft.readAll_finish (Stage.advance_item h.ne_nil hadvance) ?_ items blocks rest
  rw [hmove]
  simp only [conclude, Stage.moveEnd, hsemicolon, Goal.finish]

/-- The part of a variable declaration before its ascription. -/
theorem Stage.advance_var {var_ t colon : Located} {text : String} (hvar : var_.token = .kwVar)
    (ht : t.token = .name text) (hcolon : colon.token = .colon) (stop : Nat)
    (rest : List Located) :
    Stage.item.advance stop (var_ :: t :: colon :: rest) =
      (Stage.type (.ofVar var_.span.start ⟨text, t.span⟩)).advance colon.span.stop rest := by
  have hvar' : Stage.item.move stop var_ = some (.proceed (.varName var_.span.start)) := by
    simp only [Stage.move, hvar]
  have ht' : (Stage.varName var_.span.start).move var_.span.stop t =
      some (.proceed (.varColon var_.span.start ⟨text, t.span⟩)) := by
    simp only [Stage.move, ht]
  have hcolon' : (Stage.varColon var_.span.start ⟨text, t.span⟩).move t.span.stop colon =
      some (.proceed (.type (.ofVar var_.span.start ⟨text, t.span⟩))) := by
    simp only [Stage.move, hcolon]
  rw [Stage.advance_cons hvar', Stage.advance_cons ht', Stage.advance_cons hcolon']

theorem Draft.readAll_var {var_ t colon semicolon : Located} {text : String}
    {ts us rest : List Located} {ascription : Ascription} {initializer : Option Expr}
    (hvar : var_.token = .kwVar) (ht : t.token = .name text) (hcolon : colon.token = .colon)
    (hts : ReadsAscription ts ascription)
    (hus : ReadsInitializer AtEnd us (semicolon :: rest) initializer)
    (hsemicolon : semicolon.token = .semicolon)
    (items : List Item) (blocks : List OpenBlock) (stop : Nat) :
    (Draft.mk items blocks .item stop).readAll
        (var_ :: t :: colon :: (ts ++ us ++ semicolon :: rest)) =
      (Draft.mk (.var ⟨⟨text, t.span⟩, ascription, initializer,
          ⟨var_.span.start, semicolon.span.stop⟩⟩ :: items) blocks .item
        semicolon.span.stop).readAll rest := by
  have hascription := hts.advance colon.span.stop (.ofVar var_.span.start ⟨text, t.span⟩)
  cases hus with
  | absent =>
    have hadvance : Stage.item.advance stop (var_ :: t :: colon :: ts) =
        some (.typeMember (.ofVar var_.span.start ⟨text, t.span⟩) ascription, stopOf ts) := by
      rw [Stage.advance_var hvar ht hcolon, hascription]
    rw [List.append_nil]
    refine Draft.readAll_finish hadvance ?_ items blocks rest
    simp only [Stage.move, Stage.moveAscribed, hsemicolon]
  | @present assign es _ e hassign hes =>
    have hmove : (Stage.typeMember (.ofVar var_.span.start ⟨text, t.span⟩) ascription).move
        (stopOf ts) assign =
          some (.proceed (.operand
            (.initializer var_.span.start ⟨text, t.span⟩ ascription) [] .empty)) := by
      simp only [Stage.move, Stage.moveAscribed, hassign]
    obtain ⟨stage, hexpr, hend⟩ := hes.feeds.ending (by rw [hsemicolon]; rfl)
      assign.span.stop (.initializer var_.span.start ⟨text, t.span⟩ ascription) []
    have hadvance : Stage.item.advance stop (var_ :: t :: colon :: (ts ++ assign :: es)) =
        some (stage, stopOf es) := by
      rw [Stage.advance_var hvar ht hcolon, Stage.advance_trans hascription,
        Stage.advance_cons hmove, hexpr]
    refine Draft.readAll_finish hadvance ?_ items blocks rest
    rw [hend]
    simp only [conclude, Stage.moveEnd, hsemicolon, Goal.finish]

theorem Draft.readAll_fn {fn_ t open_ close arrow semicolon : Located} {text : String}
    {ps ts : List Located} {parameters : List Parameter} {result : Ascription}
    (hfn : fn_.token = .kwFn) (ht : t.token = .name text) (hopen : open_.token = .leftParen)
    (hps : ReadsParameters ps parameters) (hclose : close.token = .rightParen)
    (harrow : arrow.token = .arrow) (hts : ReadsAscription ts result)
    (hsemicolon : semicolon.token = .semicolon)
    (items : List Item) (blocks : List OpenBlock) (stop : Nat) (rest : List Located) :
    (Draft.mk items blocks .item stop).readAll
        (fn_ :: t :: open_ :: (ps ++ close :: arrow :: (ts ++ semicolon :: rest))) =
      (Draft.mk (.fn ⟨⟨text, t.span⟩, parameters, result,
          ⟨fn_.span.start, semicolon.span.stop⟩⟩ :: items) blocks .item
        semicolon.span.stop).readAll rest := by
  have hfn' : Stage.item.move stop fn_ = some (.proceed (.fnName fn_.span.start)) := by
    simp only [Stage.move, hfn]
  have ht' : (Stage.fnName fn_.span.start).move fn_.span.stop t =
      some (.proceed (.fnOpen fn_.span.start ⟨text, t.span⟩)) := by
    simp only [Stage.move, ht]
  have hopen' : (Stage.fnOpen fn_.span.start ⟨text, t.span⟩).move t.span.stop open_ =
      some (.proceed (.parameter ⟨fn_.span.start, ⟨text, t.span⟩, []⟩)) := by
    simp only [Stage.move, hopen]
  have hparameters := hps.advance open_.span.stop ⟨fn_.span.start, ⟨text, t.span⟩, []⟩ hclose
  have harrow' : ∀ header, (Stage.arrow header).move close.span.stop arrow =
      some (.proceed (.type (.ofResult header))) := fun header => by
    simp only [Stage.move, harrow]
  have hresult := hts.advance arrow.span.stop
    (.ofResult ⟨fn_.span.start, ⟨text, t.span⟩, parameters.reverse ++ []⟩)
  have hadvance : Stage.item.advance stop (fn_ :: t :: open_ :: ((ps ++ [close]) ++ arrow :: ts)) =
      some (.typeMember (.ofResult ⟨fn_.span.start, ⟨text, t.span⟩, parameters.reverse ++ []⟩)
        result, stopOf ts) := by
    rw [Stage.advance_cons hfn', Stage.advance_cons ht', Stage.advance_cons hopen',
      Stage.advance_trans hparameters, Stage.advance_cons (harrow' _), hresult]
  have hsplit : fn_ :: t :: open_ :: (ps ++ close :: arrow :: (ts ++ semicolon :: rest)) =
      fn_ :: t :: open_ :: ((ps ++ [close]) ++ arrow :: ts) ++ semicolon :: rest := by simp
  rw [hsplit]
  refine Draft.readAll_finish hadvance ?_ items blocks rest
  simp only [Stage.move, Stage.moveAscribed, hsemicolon, List.append_nil, List.reverse_reverse]

mutual

/-- A draft goes over the tokens of an item and then has that item. -/
theorem ReadsItem.readAll : ∀ {ts rest : List Located} {item : Item},
    ReadsItem AtEnd ts rest item → ∀ (items : List Item) (blocks : List OpenBlock) (stop : Nat),
      ∃ stop', (Draft.mk items blocks .item stop).readAll (ts ++ rest) =
        (Draft.mk (item :: items) blocks .item stop').readAll rest
  | _, _, _, .var hvar ht hcolon hts hus hsemicolon, items, blocks, stop => by
    refine ⟨_, Eq.trans ?_ (Draft.readAll_var hvar ht hcolon hts hus hsemicolon items blocks stop)⟩
    simp
  | _, rest, _, .fn hfn ht hopen hps hclose harrow hts hsemicolon, items, blocks, stop => by
    refine ⟨_, Eq.trans ?_
      (Draft.readAll_fn hfn ht hopen hps hclose harrow hts hsemicolon items blocks stop rest)⟩
    simp
  | _, _, _, @ReadsItem.block _ open_ close _ _ _ hopen hts hclose, items, blocks, stop => by
    obtain ⟨stop', hinner⟩ := hts.readAll [] (⟨open_.span.start, items⟩ :: blocks) open_.span.stop
    refine ⟨close.span.stop, ?_⟩
    rw [List.cons_append, List.cons_append, Draft.readAll_enter hopen, List.append_assoc,
      List.singleton_append, hinner, Draft.readAll_leave hclose]
    simp
  | _, _, _, .expr hts hsemicolon, items, blocks, stop => by
    refine ⟨_, Eq.trans ?_ (Draft.readAll_expr hts hsemicolon items blocks stop)⟩
    simp

/-- A draft goes over the tokens of items and then has those items. -/
theorem ReadsItems.readAll : ∀ {ts rest : List Located} {read : List Item},
    ReadsItems AtEnd ts rest read →
    ∀ (items : List Item) (blocks : List OpenBlock) (stop : Nat),
      ∃ stop', (Draft.mk items blocks .item stop).readAll (ts ++ rest) =
        (Draft.mk (read.reverse ++ items) blocks .item stop').readAll rest
  | _, _, _, .nil, _, _, stop => ⟨stop, rfl⟩
  | _, _, _, .cons hitem hothers, items, blocks, stop => by
    obtain ⟨stop', hfirst⟩ := hitem.readAll items blocks stop
    obtain ⟨stop'', hrest⟩ := hothers.readAll (_ :: items) blocks stop'
    refine ⟨stop'', ?_⟩
    rw [List.append_assoc, hfirst, hrest]
    simp

end

/-- Tokens that make items make a program. -/
theorem ReadsItems.ofTokens {tokens : List Located} {items : List Item}
    (h : ReadsItems AtEnd tokens [] items) (length : Nat) :
    Program.ofTokens length tokens = .ok ⟨items, spanOfTokens length tokens⟩ := by
  obtain ⟨stop, hread⟩ := h.readAll [] [] 0
  rw [List.append_nil] at hread
  rw [Program.ofTokens, Draft.start, hread, Draft.readAll]
  simp

end TagLang
