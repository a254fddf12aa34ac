import TagLang.Proofs.DraftComplete

/-!
# What drafts accept, the grammar reads

A draft keeps everything that it has read.  The relations of this module say, for each
part of a draft, which tokens it stands for; the tokens of the whole draft are the
tokens of its parts, one after the other.

* `DoneRead`, `SignsRead` and `ChainRead` are for expressions in part, `OpenerRead` and
  `PendingRead` for the expressions around them.
* `StageRead` is for the current item, and `StageRead.move` is the step: what a token
  does to a stage is what it does to the tokens of the stage.
* `DraftRead` is for the whole draft, and `DraftRead.readAll` is the run.

Whether an expression is complete depends on the token after it.  So an expression
that is kept is one of the grammar before that token, whatever comes later.
-/

namespace TagLang

/-! ## Expressions in part -/

/-- The operands before the last one, each with the operator after it. -/
inductive DoneRead : List (Expr × BinaryOp) → List Located → Prop where
  | nil : DoneRead [] []
  | cons {done : List (Expr × BinaryOp)} {ts us : List Located} {o : Located} {e : Expr}
      {op : BinaryOp} :
      DoneRead done ts → (∀ after, Reads AtEnd 6 us (o :: after) e) → o.token = op.token →
      DoneRead ((e, op) :: done) (ts ++ (us ++ [o]))

/-- The signs before an operand. -/
inductive SignsRead : List (UnaryOp × Span) → List Located → Prop where
  | nil : SignsRead [] []
  | cons {signs : List (UnaryOp × Span)} {ts : List Located} {s : Located} {op : UnaryOp} :
      SignsRead signs ts → s.token = op.token →
      SignsRead ((op, s.span) :: signs) (ts ++ [s])

/-- The tokens of an expression up to its last operand. -/
inductive ChainRead : Chain → List Located → Prop where
  | mk {chain : Chain} {ds ss : List Located} :
      DoneRead chain.done ds → SignsRead chain.signs ss → ChainRead chain (ds ++ ss)

theorem ChainRead.empty : ChainRead .empty [] :=
  @ChainRead.mk .empty [] [] .nil .nil

theorem ChainRead.eq_nil {chain : Chain} {cs : List Located} (h : ChainRead chain cs)
    (hempty : chain.isEmpty = true) : cs = [] := by
  obtain ⟨done, signs⟩ := chain
  simp only [Chain.isEmpty, Bool.and_eq_true, List.isEmpty_iff] at hempty
  obtain ⟨rfl, rfl⟩ := hempty
  obtain ⟨hdone, hsigns⟩ := h
  cases hdone
  cases hsigns
  rfl

theorem DoneRead.flat {done : List (Expr × BinaryOp)} {ds : List Located}
    (h : DoneRead done ds) : ∀ {us rest : List Located} {flat : Flat},
    ReadsFlat AtEnd 6 us rest flat →
    ReadsFlat AtEnd 6 (ds ++ us) rest
      (done.foldl (fun flat link => (link.1, (link.2, flat.1) :: flat.2)) flat) := by
  induction h with
  | nil => exact fun hus => hus
  | @cons done ts vs o e op _ hvs ho ih =>
    intro us rest flat hus
    have hflat := ih (ReadsFlat.cons (hvs (us ++ rest)) ho hus)
    simpa using hflat

theorem SignsRead.operand {signs : List (UnaryOp × Span)} {ss : List Located}
    (h : SignsRead signs ss) : ∀ {us rest : List Located} {atom : Expr},
    Reads AtEnd 6 us rest atom →
    Reads AtEnd 6 (ss ++ us) rest (signs.foldl (fun e sign => e.apply sign.1 sign.2) atom) := by
  induction h with
  | nil => exact fun hus => hus
  | @cons signs ts s op _ hs ih =>
    intro us rest atom hus
    rw [List.append_assoc]
    exact ih (Reads.sign hs hus)

/-- An expression in part and an atom make an expression. -/
theorem ChainRead.close {chain : Chain} {cs us rest : List Located} {atom : Expr}
    (h : ChainRead chain cs) (hus : Reads AtEnd 7 us rest atom) :
    Reads AtEnd 0 (cs ++ us) rest (chain.close atom) := by
  obtain ⟨hdone, hsigns⟩ := h
  rw [List.append_assoc]
  exact (hdone.flat (.single (hsigns.operand hus.tighter))).assemble

theorem ChainRead.extend {chain : Chain} {cs us : List Located} {atom : Expr} {o : Located}
    {op : BinaryOp} (h : ChainRead chain cs) (hus : ∀ rest, Reads AtEnd 7 us rest atom)
    (ho : o.token = op.token) : ChainRead (chain.extend atom op) (cs ++ (us ++ [o])) := by
  obtain ⟨hdone, hsigns⟩ := h
  have hextend := hdone.cons (fun after => hsigns.operand (hus (o :: after)).tighter) ho
  have hchain := @ChainRead.mk (chain.extend atom op) _ _ hextend .nil
  simpa using hchain

theorem ChainRead.sign {chain : Chain} {cs : List Located} {s : Located} {op : UnaryOp}
    (h : ChainRead chain cs) (hs : s.token = op.token) :
    ChainRead (chain.sign op s.span) (cs ++ [s]) := by
  obtain ⟨hdone, hsigns⟩ := h
  rw [List.append_assoc]
  exact @ChainRead.mk (chain.sign op s.span) _ _ hdone (hsigns.cons hs)

/-! ## Openers -/

/-- The arguments so far, each with the comma after it. -/
inductive GivenRead : List Expr → List Located → Prop where
  | nil : GivenRead [] []
  | cons {given : List Expr} {ts us : List Located} {comma : Located} {e : Expr} :
      GivenRead given ts → (∀ after, Reads AtEnd 0 us (comma :: after) e) →
      comma.token = .comma → GivenRead (e :: given) (ts ++ (us ++ [comma]))

theorem GivenRead.arguments {given : List Expr} {vs : List Located} (h : GivenRead given vs) :
    ∀ {us rest : List Located} {es : List Expr}, ReadsArguments AtEnd us rest es →
      ReadsArguments AtEnd (vs ++ us) rest (given.reverse ++ es) := by
  induction h with
  | nil => exact fun hus => hus
  | @cons given ts vs comma e _ hvs hcomma ih =>
    intro us rest es hus
    have harguments := ih (ReadsArguments.more (hvs (us ++ rest)) hcomma hus)
    simpa using harguments

/-- The tokens from an opener to the expression inside it. -/
inductive OpenerRead : Opener → List Located → Prop where
  | group {open_ : Located} : open_.token = .leftParen → OpenerRead .group [open_]
  | arguments {t open_ : Located} {text : String} {given : List Expr} {vs : List Located} :
      t.token = .name text → open_.token = .leftParen → GivenRead given vs →
      OpenerRead (.arguments ⟨text, t.span⟩ given) (t :: open_ :: vs)
  | condition {if_ : Located} :
      if_.token = .kwIf → OpenerRead (.condition if_.span.start) [if_]
  | consequent {if_ then_ : Located} {cs : List Located} {condition : Expr} :
      if_.token = .kwIf → (∀ after, Reads AtEnd 0 cs (then_ :: after) condition) →
      then_.token = .kwThen →
      OpenerRead (.consequent if_.span.start condition) (if_ :: cs ++ [then_])
  | alternative {if_ then_ else_ : Located} {cs bs : List Located}
      {condition consequent : Expr} :
      if_.token = .kwIf → (∀ after, Reads AtEnd 0 cs (then_ :: after) condition) →
      then_.token = .kwThen → (∀ after, Reads AtEnd 0 bs (else_ :: after) consequent) →
      else_.token = .kwElse →
      OpenerRead (.alternative if_.span.start condition consequent)
        (if_ :: cs ++ then_ :: (bs ++ [else_]))

/-- The tokens of the expressions in part around an inner one. -/
inductive PendingRead : List Pending → List Located → Prop where
  | nil : PendingRead [] []
  | cons {pending : List Pending} {opener : Opener} {around : Chain} {ps cs os : List Located} :
      PendingRead pending ps → ChainRead around cs → OpenerRead opener os →
      PendingRead (⟨opener, around⟩ :: pending) (ps ++ (cs ++ os))

/-- The alternative of a conditional is complete, and with it the conditional. -/
theorem OpenerRead.conditional {t : Located} (ht : t.token.endsExpr = true) {start : Nat}
    {condition consequent e : Expr} {os es : List Located}
    (hos : OpenerRead (.alternative start condition consequent) os)
    (hes : ∀ after, Reads AtEnd 0 es (t :: after) e) :
    ∀ after, Reads AtEnd 7 (os ++ es) (t :: after)
      (.conditional condition consequent e ⟨start, stopOf es⟩) := by
  intro after
  obtain _ | _ | _ | _ | ⟨hif, hcs, hthen, hbs, helse⟩ := hos
  have hconditional := Reads.conditional hif (hcs _) hthen (hbs _) helse (hes after)
    ⟨t, after, rfl, ht⟩
  simpa using hconditional

/-- A token that ends an expression settles it: what is left are the openers that still
wait, and a whole expression after them. -/
theorem PendingRead.settle {t : Located} (ht : t.token.endsExpr = true)
    {pending : List Pending} {chain : Chain} {atom : Expr} {ps cs us : List Located}
    (hps : PendingRead pending ps) (hcs : ChainRead chain cs)
    (hus : ∀ after, Reads AtEnd 7 us (t :: after) atom) :
    ∃ os es, os ++ es = ps ++ (cs ++ us) ∧
      PendingRead (settle (stopOf us) pending chain atom).1 os ∧
      ∀ after, Reads AtEnd 0 es (t :: after) (settle (stopOf us) pending chain atom).2 := by
  induction pending generalizing chain atom ps cs us with
  | nil => exact ⟨ps, cs ++ us, rfl, hps, fun after => hcs.close (hus after)⟩
  | cons head pending ih =>
    obtain ⟨opener, around⟩ := head
    cases opener with
    | alternative start condition consequent =>
      obtain _ | @⟨_, _, _, ps', cs', os, hps', hcs', hos⟩ := hps
      have hne : us ≠ [] := (hus []).ne_nil
      -- The conditional is an atom of the expression around it, and ends where `us` ends.
      have hconditional := hos.conditional ht fun after => hcs.close (hus after)
      have hstop : stopOf (os ++ (cs ++ us)) = stopOf us := by
        rw [stopOf_append _ (by simp [hne]), stopOf_append _ hne]
      rw [stopOf_append _ hne] at hconditional
      obtain ⟨os', es, heq, hos', hes⟩ := ih hps' hcs' hconditional
      rw [hstop] at hos' hes
      exact ⟨os', es, by simpa using heq, hos', hes⟩
    | group => exact ⟨ps, cs ++ us, rfl, hps, fun after => hcs.close (hus after)⟩
    | arguments callee given =>
      exact ⟨ps, cs ++ us, rfl, hps, fun after => hcs.close (hus after)⟩
    | condition start => exact ⟨ps, cs ++ us, rfl, hps, fun after => hcs.close (hus after)⟩
    | consequent start condition =>
      exact ⟨ps, cs ++ us, rfl, hps, fun after => hcs.close (hus after)⟩

/-! ## Items in part -/

/-- The tokens of an item before its outermost expression. -/
inductive GoalRead : Goal → List Located → Prop where
  | statement : GoalRead .statement []
  | initializer {var_ t colon assign : Located} {text : String} {ts : List Located}
      {ascription : Ascription} :
      var_.token = .kwVar → t.token = .name text → colon.token = .colon →
      ReadsAscription ts ascription → assign.token = .assign →
      GoalRead (.initializer var_.span.start ⟨text, t.span⟩ ascription)
        (var_ :: t :: colon :: (ts ++ [assign]))

/-- The parameters so far, each with the comma after it. -/
inductive CommasRead : List Parameter → List Located → Prop where
  | nil : CommasRead [] []
  | cons {parameters : List Parameter} {ts us : List Located} {comma : Located}
      {parameter : Parameter} :
      CommasRead parameters ts → ReadsParameter us parameter → comma.token = .comma →
      CommasRead (parameter :: parameters) (ts ++ (us ++ [comma]))

theorem CommasRead.parameters {parameters : List Parameter} {vs : List Located}
    (h : CommasRead parameters vs) : ∀ {us : List Located} {others : List Parameter},
    ReadsParameters us others → ReadsParameters (vs ++ us) (parameters.reverse ++ others) := by
  induction h with
  | nil => exact fun hus => hus
  | @cons parameters ts vs comma parameter _ hvs hcomma ih =>
    intro us others hus
    have hparameters := ih (ReadsParameters.more hvs hcomma hus)
    simpa using hparameters

/-- The tokens of a function declaration up to a parameter. -/
inductive HeaderRead : Header → List Located → Prop where
  | mk {fn_ t open_ : Located} {text : String} {ps : List Located}
      {parameters : List Parameter} :
      fn_.token = .kwFn → t.token = .name text → open_.token = .leftParen →
      CommasRead parameters ps →
      HeaderRead ⟨fn_.span.start, ⟨text, t.span⟩, parameters⟩ (fn_ :: t :: open_ :: ps)

/-- The tokens of a function declaration up to the end of its parameters. -/
inductive SignatureRead : Header → List Located → Prop where
  | mk {fn_ t open_ close : Located} {text : String} {ps : List Located}
      {parameters : List Parameter} :
      fn_.token = .kwFn → t.token = .name text → open_.token = .leftParen →
      ReadsParameters ps parameters.reverse → close.token = .rightParen →
      SignatureRead ⟨fn_.span.start, ⟨text, t.span⟩, parameters⟩
        (fn_ :: t :: open_ :: (ps ++ [close]))

/-- The tokens before an ascription. -/
inductive SiteRead : Site → List Located → Prop where
  | ofVar {var_ t colon : Located} {text : String} :
      var_.token = .kwVar → t.token = .name text → colon.token = .colon →
      SiteRead (.ofVar var_.span.start ⟨text, t.span⟩) [var_, t, colon]
  | ofParameter {header : Header} {hs : List Located} {t colon : Located} {text : String} :
      HeaderRead header hs → t.token = .name text → colon.token = .colon →
      SiteRead (.ofParameter header ⟨text, t.span⟩) (hs ++ [t, colon])
  | ofResult {header : Header} {hs : List Located} {arrow : Located} :
      SignatureRead header hs → arrow.token = .arrow →
      SiteRead (.ofResult header) (hs ++ [arrow])

theorem HeaderRead.comma {header : Header} {hs us : List Located} {name : Name}
    {ascription : Option Ascription} {comma : Located} (h : HeaderRead header hs)
    (hus : ReadsParameter us ⟨name, ascription⟩) (hcomma : comma.token = .comma) :
    HeaderRead (header.add name ascription) (hs ++ (us ++ [comma])) := by
  obtain ⟨hfn, ht, hopen, hps⟩ := h
  exact .mk hfn ht hopen (hps.cons hus hcomma)

theorem HeaderRead.close {header : Header} {hs : List Located} {close : Located}
    (h : HeaderRead header hs) (hclose : close.token = .rightParen) :
    SignatureRead header (hs ++ [close]) := by
  obtain ⟨hfn, ht, hopen, hps⟩ := h
  have hparameters := hps.parameters .none
  rw [List.append_nil, List.append_nil] at hparameters
  exact .mk hfn ht hopen hparameters hclose

theorem HeaderRead.last {header : Header} {hs us : List Located} {name : Name}
    {ascription : Option Ascription} {close : Located} (h : HeaderRead header hs)
    (hus : ReadsParameter us ⟨name, ascription⟩) (hclose : close.token = .rightParen) :
    SignatureRead (header.add name ascription) (hs ++ (us ++ [close])) := by
  obtain ⟨hfn, ht, hopen, hps⟩ := h
  have hparameters := hps.parameters (.last hus)
  rw [← List.reverse_cons] at hparameters
  have hsignature := SignatureRead.mk hfn ht hopen hparameters hclose
  rw [List.append_assoc] at hsignature
  exact hsignature

/-- The tokens of the current item. -/
inductive StageRead : Stage → List Located → Prop where
  | item : StageRead .item []
  | varName {var_ : Located} :
      var_.token = .kwVar → StageRead (.varName var_.span.start) [var_]
  | varColon {var_ t : Located} {text : String} :
      var_.token = .kwVar → t.token = .name text →
      StageRead (.varColon var_.span.start ⟨text, t.span⟩) [var_, t]
  | fnName {fn_ : Located} :
      fn_.token = .kwFn → StageRead (.fnName fn_.span.start) [fn_]
  | fnOpen {fn_ t : Located} {text : String} :
      fn_.token = .kwFn → t.token = .name text →
      StageRead (.fnOpen fn_.span.start ⟨text, t.span⟩) [fn_, t]
  | parameter {header : Header} {hs : List Located} :
      HeaderRead header hs → StageRead (.parameter header) hs
  | parameterName {header : Header} {hs : List Located} {t : Located} {text : String} :
      HeaderRead header hs → t.token = .name text →
      StageRead (.parameterName header ⟨text, t.span⟩) (hs ++ [t])
  | arrow {header : Header} {hs : List Located} :
      SignatureRead header hs → StageRead (.arrow header) hs
  | type {site : Site} {ss : List Located} : SiteRead site ss → StageRead (.type site) ss
  | typeMember {site : Site} {ss ts : List Located} {ascription : Ascription} :
      SiteRead site ss → ReadsAscription ts ascription →
      StageRead (.typeMember site ascription) (ss ++ ts)
  | typeBar {site : Site} {ss ts : List Located} {ascription : Ascription} {bar : Located} :
      SiteRead site ss → ReadsAscription ts ascription → bar.token = .pipe →
      StageRead (.typeBar site ascription) (ss ++ (ts ++ [bar]))
  | operand {goal : Goal} {pending : List Pending} {chain : Chain} {gs ps cs : List Located} :
      GoalRead goal gs → PendingRead pending ps → ChainRead chain cs →
      StageRead (.operand goal pending chain) (gs ++ (ps ++ cs))
  | operator {goal : Goal} {pending : List Pending} {chain : Chain} {atom : Expr}
      {callee : Option Name} {gs ps cs us : List Located} :
      GoalRead goal gs → PendingRead pending ps → ChainRead chain cs →
      (∀ rest, Reads AtEnd 7 us rest atom) →
      (∀ name ∈ callee, ∃ t : Located, us = [t] ∧ t.token = .name name.text ∧
        t.span = name.span) →
      StageRead (.operator goal pending chain atom callee) (gs ++ (ps ++ (cs ++ us)))

/-- What a token `t` makes of the tokens of an item. -/
inductive MoveRead : Move → List Located → Located → Prop where
  | proceed {stage : Stage} {ts : List Located} {t : Located} :
      StageRead stage (ts ++ [t]) → MoveRead (.proceed stage) ts t
  | finish {item : Item} {ts : List Located} {t : Located} :
      (∀ after, ReadsItem AtEnd (ts ++ [t]) after item) → MoveRead (.finish item) ts t
  | enter {t : Located} : t.token = .leftBrace → MoveRead .enter [] t
  | leave {t : Located} : t.token = .rightBrace → MoveRead .leave [] t

theorem MoveRead.stage {stage : Stage} {ts us : List Located} {t : Located}
    (h : StageRead stage us) (heq : us = ts ++ [t]) : MoveRead (.proceed stage) ts t :=
  .proceed (heq ▸ h)

/-- An operand that is complete and not a name. -/
theorem StageRead.atom {goal : Goal} {pending : List Pending} {chain : Chain} {atom : Expr}
    {gs ps cs us : List Located} (hgs : GoalRead goal gs) (hps : PendingRead pending ps)
    (hcs : ChainRead chain cs) (hus : ∀ rest, Reads AtEnd 7 us rest atom) :
    StageRead (.operator goal pending chain atom none) (gs ++ (ps ++ (cs ++ us))) :=
  .operator hgs hps hcs hus (by simp)

theorem StageRead.called {goal : Goal} {pending : List Pending} {around : Chain}
    {callee : Name} {given es : List Expr} {gs ps cs os us : List Located} {close : Located}
    (hgs : GoalRead goal gs) (hps : PendingRead pending ps) (hcs : ChainRead around cs)
    (hos : OpenerRead (.arguments callee given) os) (hclose : close.token = .rightParen)
    (hus : ∀ after, ReadsArguments AtEnd us (close :: after) es) :
    StageRead (.called goal pending around callee (given.reverse ++ es) close.span.stop)
      (gs ++ (ps ++ (cs ++ (os ++ (us ++ [close]))))) := by
  obtain _ | ⟨ht, hopen, hvs⟩ := hos
  refine .atom hgs hps hcs fun rest => ?_
  have hcall := Reads.call ht hopen (hvs.arguments (hus rest)) hclose
  simpa using hcall

/-- A token at an operand. -/
theorem StageRead.moveOperand {goal : Goal} {pending : List Pending} {chain : Chain}
    {gs ps cs : List Located} {t : Located} {stage : Stage} (hgs : GoalRead goal gs)
    (hps : PendingRead pending ps) (hcs : ChainRead chain cs)
    (h : Stage.moveOperand goal pending chain t = some stage) :
    StageRead stage (gs ++ (ps ++ (cs ++ [t]))) := by
  unfold Stage.moveOperand at h
  split at h
  case h_1 _ digits ht =>
    cases h
    exact .atom hgs hps hcs fun rest => @Reads.literal _ t rest (.int digits) ht
  case h_2 _ value ht =>
    cases h
    exact .atom hgs hps hcs fun rest => @Reads.literal _ t rest (.str value) ht
  case h_3 _ value ht =>
    cases h
    exact .atom hgs hps hcs fun rest => @Reads.literal _ t rest (.bool value) ht
  case h_4 _ text ht =>
    cases h
    refine .operator hgs hps hcs (fun rest => Reads.var ht) fun name hname => ?_
    cases hname
    exact ⟨t, rfl, ht, rfl⟩
  case h_5 _ ht =>
    cases h
    have hstage := StageRead.operand hgs (hps.cons hcs (.condition ht)) .empty
    simpa using hstage
  case h_6 _ ht =>
    cases h
    have hstage := StageRead.operand hgs (hps.cons hcs (.group ht)) .empty
    simpa using hstage
  case h_7 _ ht =>
    cases h
    exact .operand hgs hps (@ChainRead.sign _ _ _ .negate hcs ht)
  case h_8 _ ht =>
    cases h
    exact .operand hgs hps (@ChainRead.sign _ _ _ .not hcs ht)
  case h_9 _ callee given around outer ht =>
    split at h
    case isFalse => simp at h
    case isTrue hempty =>
      cases h
      obtain rfl := hcs.eq_nil hempty
      obtain _ | ⟨hps, hcs, hos⟩ := hps
      have hstage := StageRead.called hgs hps hcs hos ht fun after => .none
      simpa using hstage
  case h_10 => simp at h

/-- A semicolon after the outermost expression. -/
theorem GoalRead.finish {goal : Goal} {gs es : List Located} {e : Expr} {t : Located}
    (hgs : GoalRead goal gs) (hes : ∀ after, Reads AtEnd 0 es (t :: after) e)
    (ht : t.token = .semicolon) :
    ∀ after, ReadsItem AtEnd (gs ++ (es ++ [t])) after (goal.finish t.span.stop e) := by
  intro after
  cases hgs with
  | statement => exact .expr (hes after) ht
  | initializer hvar hname hcolon hts hassign =>
    have hitem := ReadsItem.var hvar hname hcolon hts (.present hassign (hes after)) ht
    simpa [Goal.finish] using hitem

/-- A token after a whole expression. -/
theorem MoveRead.moveEnd {goal : Goal} {pending : List Pending} {e : Expr}
    {gs os es : List Located} {t : Located} {move : Move} (hgs : GoalRead goal gs)
    (hos : PendingRead pending os) (hes : ∀ after, Reads AtEnd 0 es (t :: after) e)
    (h : Stage.moveEnd goal pending e t = some move) :
    MoveRead move (gs ++ (os ++ es)) t := by
  unfold Stage.moveEnd at h
  split at h
  case h_1 ht =>
    cases h
    obtain _ | ⟨hps, hcs, ⟨hopen⟩⟩ := hos
    have hstage := StageRead.atom hgs hps hcs fun rest => Reads.group hopen (hes rest) ht
    exact .stage hstage (by simp)
  case h_2 ht =>
    cases h
    obtain _ | ⟨hps, hcs, hos⟩ := hos
    have hstage := StageRead.called hgs hps hcs hos ht fun after => .last (hes after)
    rw [← List.reverse_cons] at hstage
    exact .stage hstage (by simp)
  case h_3 ht =>
    cases h
    obtain _ | ⟨hps, hcs, hos⟩ := hos
    obtain _ | ⟨hname, hopen, hvs⟩ := hos
    have hopener := OpenerRead.arguments hname hopen (hvs.cons hes ht)
    have hstage := StageRead.operand hgs (hps.cons hcs hopener) .empty
    exact .stage hstage (by simp)
  case h_4 ht =>
    cases h
    obtain _ | ⟨hps, hcs, hos⟩ := hos
    obtain _ | _ | hif := hos
    have hstage := StageRead.operand hgs (hps.cons hcs (.consequent hif hes ht)) .empty
    exact .stage hstage (by simp)
  case h_5 ht =>
    cases h
    obtain _ | ⟨hps, hcs, hos⟩ := hos
    obtain _ | _ | _ | ⟨hif, htest, hthen⟩ := hos
    have hopener := OpenerRead.alternative hif htest hthen hes ht
    have hstage := StageRead.operand hgs (hps.cons hcs hopener) .empty
    exact .stage hstage (by simp)
  case h_6 ht =>
    cases h
    cases hos
    refine .finish ?_
    simpa using hgs.finish hes ht
  case h_7 => simp at h

theorem Stage.endsExpr_of_moveEnd {goal : Goal} {pending : List Pending} {e : Expr}
    {t : Located} {move : Move} (h : Stage.moveEnd goal pending e t = some move) :
    t.token.endsExpr = true := by
  unfold Stage.moveEnd at h
  split at h <;> simp_all [Token.endsExpr]

/-- A token after an operand. -/
theorem MoveRead.moveOperator {goal : Goal} {pending : List Pending} {chain : Chain}
    {atom : Expr} {callee : Option Name} {gs ps cs us : List Located} {t : Located}
    {move : Move} (hgs : GoalRead goal gs) (hps : PendingRead pending ps)
    (hcs : ChainRead chain cs) (hus : ∀ rest, Reads AtEnd 7 us rest atom)
    (hcallee : ∀ name ∈ callee, ∃ t : Located, us = [t] ∧ t.token = .name name.text ∧
      t.span = name.span)
    (h : Stage.moveOperator (stopOf us) goal pending chain atom callee t = some move) :
    MoveRead move (gs ++ (ps ++ (cs ++ us))) t := by
  unfold Stage.moveOperator at h
  split at h
  case h_1 op hop =>
    cases h
    have hchain := hcs.extend hus (Token.eq_token_of_binaryOp? hop)
    exact .stage (StageRead.operand hgs hps hchain) (by simp)
  case h_2 callee _ ht =>
    cases h
    obtain ⟨t', rfl, hname, hspan⟩ := hcallee callee rfl
    obtain ⟨text, span⟩ := callee
    simp only at hname hspan
    subst hspan
    have hopener := OpenerRead.arguments hname ht .nil
    have hstage := StageRead.operand hgs (hps.cons hcs hopener) .empty
    exact .stage hstage (by simp)
  case h_3 =>
    have hends := Stage.endsExpr_of_moveEnd h
    obtain ⟨os, es, heq, hos, hes⟩ := hps.settle hends hcs fun after => hus (t :: after)
    rw [← heq]
    exact MoveRead.moveEnd hgs hos hes h

/-- A token after an ascription. -/
theorem MoveRead.moveAscribed {site : Site} {ascription : Ascription} {ss ts : List Located}
    {t : Located} {move : Move} (hss : SiteRead site ss) (hts : ReadsAscription ts ascription)
    (h : Stage.moveAscribed site ascription t = some move) :
    MoveRead move (ss ++ ts) t := by
  unfold Stage.moveAscribed at h
  split at h
  case h_1 ht =>
    cases h
    obtain ⟨hvar, hname, hcolon⟩ := hss
    have hstage := StageRead.operand (.initializer hvar hname hcolon hts ht) .nil .empty
    exact .stage hstage (by simp)
  case h_2 ht =>
    cases h
    obtain ⟨hvar, hname, hcolon⟩ := hss
    refine .finish fun after => ?_
    have hitem := @ReadsItem.var AtEnd _ _ _ _ _ _ _ after _ _ hvar hname hcolon hts .absent ht
    simpa using hitem
  case h_3 ht =>
    cases h
    obtain _ | ⟨hheader, hname, hcolon⟩ := hss
    have hstage := StageRead.parameter (hheader.comma (.ascribed hname hcolon hts) ht)
    exact .stage hstage (by simp)
  case h_4 ht =>
    cases h
    obtain _ | ⟨hheader, hname, hcolon⟩ := hss
    have hstage := StageRead.arrow (hheader.last (.ascribed hname hcolon hts) ht)
    exact .stage hstage (by simp)
  case h_5 ht =>
    cases h
    obtain _ | _ | ⟨hsignature, harrow⟩ := hss
    obtain ⟨hfn, hname, hopen, hps, hclose⟩ := hsignature
    refine .finish fun after => ?_
    have hitem := @ReadsItem.fn AtEnd _ _ _ _ _ _ _ _ _ after _ _ hfn hname hopen hps hclose
      harrow hts ht
    simpa using hitem
  case h_6 => simp at h

/-- One token: what it does to a stage is what it does to the tokens of the stage. -/
theorem StageRead.move {stage : Stage} {ts : List Located} {stop : Nat} {t : Located}
    {move : Move} (hstage : StageRead stage ts) (hstop : ts ≠ [] → stop = stopOf ts)
    (h : stage.move stop t = some move) : MoveRead move ts t := by
  cases hstage with
  | item =>
    simp only [Stage.move] at h
    split at h
    case h_1 ht =>
      cases h
      exact .proceed (.varName ht)
    case h_2 ht =>
      cases h
      exact .proceed (.fnName ht)
    case h_3 ht =>
      cases h
      exact .enter ht
    case h_4 ht =>
      cases h
      exact .leave ht
    case h_5 =>
      obtain ⟨stage, hoperand, rfl⟩ := Option.map_eq_some_iff.1 h
      exact .proceed (StageRead.moveOperand .statement .nil .empty hoperand)
  | varName hvar =>
    simp only [Stage.move] at h
    split at h
    case h_1 ht =>
      cases h
      exact .proceed (.varColon hvar ht)
    case h_2 => simp at h
  | varColon hvar hname =>
    simp only [Stage.move] at h
    split at h
    case h_1 ht =>
      cases h
      exact .proceed (.type (.ofVar hvar hname ht))
    case h_2 => simp at h
  | fnName hfn =>
    simp only [Stage.move] at h
    split at h
    case h_1 ht =>
      cases h
      exact .proceed (.fnOpen hfn ht)
    case h_2 => simp at h
  | fnOpen hfn hname =>
    simp only [Stage.move] at h
    split at h
    case h_1 ht =>
      cases h
      exact .proceed (.parameter (.mk hfn hname ht .nil))
    case h_2 => simp at h
  | parameter hheader =>
    simp only [Stage.move] at h
    split at h
    case h_1 ht =>
      cases h
      exact .proceed (.parameterName hheader ht)
    case h_2 ht =>
      cases h
      exact .proceed (.arrow (hheader.close ht))
    case h_3 => simp at h
  | parameterName hheader hname =>
    simp only [Stage.move] at h
    split at h
    case h_1 ht =>
      cases h
      exact .stage (StageRead.type (.ofParameter hheader hname ht)) (by simp)
    case h_2 ht =>
      cases h
      exact .stage (StageRead.parameter (hheader.comma (.bare hname) ht)) (by simp)
    case h_3 ht =>
      cases h
      exact .stage (StageRead.arrow (hheader.last (.bare hname) ht)) (by simp)
    case h_4 => simp at h
  | arrow hsignature =>
    simp only [Stage.move] at h
    split at h
    case h_1 ht =>
      cases h
      exact .proceed (.type (.ofResult hsignature ht))
    case h_2 => simp at h
  | type hsite =>
    simp only [Stage.move] at h
    split at h
    case h_1 ht =>
      cases h
      exact .proceed (.typeMember hsite (.base ht))
    case h_2 => simp at h
  | typeMember hsite hts =>
    simp only [Stage.move] at h
    split at h
    case h_1 ht =>
      cases h
      exact .stage (StageRead.typeBar hsite hts ht) (by simp)
    case h_2 => exact MoveRead.moveAscribed hsite hts h
  | typeBar hsite hts hbar =>
    simp only [Stage.move] at h
    split at h
    case h_1 ht =>
      cases h
      have hstage := StageRead.typeMember hsite (.bar hts hbar ht)
      exact .stage hstage (by simp)
    case h_2 => simp at h
  | operand hgs hps hcs =>
    obtain ⟨stage, hoperand, rfl⟩ := Option.map_eq_some_iff.1 h
    exact .stage (StageRead.moveOperand hgs hps hcs hoperand) (by simp)
  | @operator _ _ _ _ _ _ _ _ us hgs hps hcs hus hcallee =>
    have hne : us ≠ [] := (hus []).ne_nil
    have hlast : stop = stopOf us := by
      rw [hstop (by simp [hne]), stopOf_append _ (by simp [hne]), stopOf_append _ (by simp [hne]),
        stopOf_append _ hne]
    subst hlast
    exact MoveRead.moveOperator hgs hps hcs hus hcallee h

/-! ## Programs in part -/

theorem ReadsItems.concat {far : List Located → List Located → Prop} :
    ∀ {us ts rest : List Located} {items : List Item} {item : Item},
    ReadsItems far us (ts ++ rest) items → ReadsItem far ts rest item →
    ReadsItems far (us ++ ts) rest (items ++ [item])
  | _, ts, rest, _, item, .nil, hitem => by
    have hitems : ReadsItems far (ts ++ []) rest [item] := .cons (by simpa using hitem) .nil
    simpa using hitems
  | _, ts, rest, _, item, @ReadsItems.cons _ vs us _ first others hfirst hothers, hitem => by
    have hrest := ReadsItems.concat hothers hitem
    have hfirst' : ReadsItem far vs (us ++ ts ++ rest) first := by simpa using hfirst
    simpa using ReadsItems.cons hfirst' hrest

/-- The tokens of the open blocks, up to the items of the innermost one. -/
inductive BlocksRead : List OpenBlock → List Located → Prop where
  | nil : BlocksRead [] []
  | cons {blocks : List OpenBlock} {before : List Item} {bs us : List Located}
      {open_ : Located} :
      BlocksRead blocks bs → (∀ after, ReadsItems AtEnd us after before.reverse) →
      open_.token = .leftBrace →
      BlocksRead (⟨open_.span.start, before⟩ :: blocks) (bs ++ (us ++ [open_]))

/-- The tokens of a draft. -/
inductive DraftRead : Draft → List Located → Prop where
  | mk {items : List Item} {blocks : List OpenBlock} {stage : Stage} {stop : Nat}
      {bs us ts : List Located} :
      BlocksRead blocks bs → (∀ after, ReadsItems AtEnd us after items.reverse) →
      StageRead stage ts → (ts ≠ [] → stop = stopOf ts) →
      DraftRead ⟨items, blocks, stage, stop⟩ (bs ++ (us ++ ts))

/-- One token: the draft keeps it, and loses none of those before. -/
theorem DraftRead.read {draft draft' : Draft} {tokens : List Located} {t : Located}
    (hdraft : DraftRead draft tokens) (h : draft.read t = some draft') :
    DraftRead draft' (tokens ++ [t]) := by
  obtain @⟨items, blocks, stage, stop, bs, us, ts, hblocks, hitems, hstage, hstop⟩ := hdraft
  have hstep : ∀ move, stage.move stop t = some move → MoveRead move ts t :=
    fun move => hstage.move hstop
  unfold Draft.read at h
  split at h
  case h_1 next hmove =>
    cases h
    obtain ⟨hnext⟩ := hstep _ hmove
    have hlast : ts ++ [t] ≠ [] → t.span.stop = stopOf (ts ++ [t]) :=
      fun _ => (stopOf_concat ts t).symm
    simpa using DraftRead.mk hblocks hitems hnext hlast
  case h_2 item hmove =>
    cases h
    obtain _ | hitem := hstep _ hmove
    have hitems' : ∀ after, ReadsItems AtEnd (us ++ (ts ++ [t])) after (item :: items).reverse :=
      fun after => by
        rw [List.reverse_cons]
        exact (hitems _).concat (hitem after)
    have hdraft := @DraftRead.mk _ _ _ t.span.stop _ _ _ hblocks hitems' .item (by simp)
    simpa using hdraft
  case h_3 hmove =>
    cases h
    obtain _ | _ | ht := hstep _ hmove
    have hdraft := @DraftRead.mk [] _ _ t.span.stop _ [] _ (hblocks.cons hitems ht)
      (fun _ => .nil) .item (by simp)
    simpa using hdraft
  case h_4 start before outer hmove heq =>
    cases h
    obtain rfl : blocks = ⟨start, before⟩ :: outer := heq
    obtain _ | _ | _ | ht := hstep _ hmove
    obtain _ | @⟨_, _, bs, vs, open_, hblocks, hbefore, hopen⟩ := hblocks
    have hitems' : ∀ after, ReadsItems AtEnd (vs ++ (open_ :: us ++ [t])) after
        (.block items.reverse ⟨open_.span.start, t.span.stop⟩ :: before).reverse :=
      fun after => by
        rw [List.reverse_cons]
        exact (hbefore _).concat (.block hopen (hitems (t :: after)) ht)
    have hdraft := @DraftRead.mk _ _ _ t.span.stop _ _ _ hblocks hitems' .item (by simp)
    simpa using hdraft
  case h_5 => simp at h
  case h_6 => simp at h

/-- Many tokens: the draft keeps them all. -/
theorem DraftRead.readAll {draft draft' : Draft} {tokens ts : List Located}
    (hdraft : DraftRead draft tokens) (h : draft.readAll ts = .ok draft') :
    DraftRead draft' (tokens ++ ts) := by
  induction ts generalizing draft tokens with
  | nil =>
    cases h
    rwa [List.append_nil]
  | cons t ts ih =>
    rw [Draft.readAll] at h
    cases hread : draft.read t with
    | none => simp [hread] at h
    | some next =>
      rw [hread] at h
      have hrest := ih (hdraft.read hread) h
      simpa using hrest

theorem DraftRead.start : DraftRead .start [] :=
  @DraftRead.mk [] [] .item 0 [] [] [] .nil (fun _ => .nil) .item (by simp)

/-- Tokens that make a program make its items. -/
theorem readsItems_of_ofTokens {length : Nat} {tokens : List Located} {program : Program}
    (h : Program.ofTokens length tokens = .ok program) :
    program.span = spanOfTokens length tokens ∧ ReadsItems AtEnd tokens [] program.items := by
  unfold Program.ofTokens at h
  split at h
  case h_1 => simp at h
  case h_2 draft hread =>
    split at h
    case h_2 => simp at h
    case h_1 hstage hblocks =>
      cases h
      refine ⟨rfl, ?_⟩
      have hdraft := DraftRead.start.readAll hread
      obtain @⟨items, blocks, stage, stop, bs, us, ts, hbs, hitems, hts, _⟩ := hdraft
      obtain rfl : stage = .item := hstage
      obtain rfl : blocks = [] := hblocks
      cases hbs
      cases hts
      simpa using hitems []

end TagLang
