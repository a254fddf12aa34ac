import TagLang.Proofs.DraftSound

/-!
# The parser and its grammar

Drafts accept the programs that the grammar reads with alternatives `AtEnd`.  This
module compares these readings with the ones of `Anywhere` and of `Farthest`.

* `Reads.exists_atEnd`: whatever the grammar reads in some way, it also reads with every
  alternative at the end.  An operator after a conditional moves into its alternative.
* `Reads.farthest`: an alternative at the end extends as far as possible, since no
  expression goes on from there.
* `Reads.atEnd`: an alternative that extends as far as possible is at the end, since it
  would otherwise take the operators after it.
* `ofTokens_accepts_grammar` is the result for programs.
-/

namespace TagLang

/-! ## Other alternatives -/

section Imp

variable {far far' : List Located → List Located → Prop}

mutual

/-- A reading with alternatives of one kind is one with alternatives of another kind,
if the alternatives are. -/
theorem Reads.imp (himp : ∀ {as rest e}, Reads far 0 as rest e → far as rest → far' as rest) :
    ∀ {rank : Nat} {ts rest : List Located} {e : Expr},
    Reads far rank ts rest e → Reads far' rank ts rest e
  | _, _, _, _, .literal ht => .literal ht
  | _, _, _, _, .var ht => .var ht
  | _, _, _, _, .call ht hopen hus hclose => .call ht hopen (hus.imp himp) hclose
  | _, _, _, _, .group hopen hus hclose => .group hopen (hus.imp himp) hclose
  | _, _, _, _, .conditional hif hcs hthen hbs helse has hfar =>
    .conditional hif (hcs.imp himp) hthen (hbs.imp himp) helse (has.imp himp) (himp has hfar)
  | _, _, _, _, .sign ht hts => .sign ht (hts.imp himp)
  | _, _, _, _, .binary hls ho hrs => .binary (hls.imp himp) ho (hrs.imp himp)
  | _, _, _, _, .tighter h => (h.imp himp).tighter

theorem ReadsArguments.imp
    (himp : ∀ {as rest e}, Reads far 0 as rest e → far as rest → far' as rest) :
    ∀ {us rest : List Located} {es : List Expr},
    ReadsArguments far us rest es → ReadsArguments far' us rest es
  | _, _, _, .none => .none
  | _, _, _, .last h => .last (h.imp himp)
  | _, _, _, .more h hcomma hothers => .more (h.imp himp) hcomma (hothers.imp himp)

end

end Imp

theorem Reads.anywhere {far : List Located → List Located → Prop} {rank : Nat}
    {ts rest : List Located} {e : Expr} (h : Reads far rank ts rest e) :
    Reads Anywhere rank ts rest e :=
  h.imp fun _ _ => trivial

/-! ## Moving operators into alternatives -/

/-- The tokens go on with operators and operands, and then end the expression. -/
inductive Continued (rest : List Located) : Prop where
  | mk {us after : List Located} {links : List (BinaryOp × Expr)} :
      us ++ after = rest → ReadsLinks AtEnd 6 us after links → Ended after → Continued rest

theorem Ended.continued {rest : List Located} (h : Ended rest) : Continued rest :=
  ⟨rfl, .nil, h⟩

/-- The tokens of an expression, and of the operators and operands after it, are a chain
with alternatives at the end. -/
def Extends (ts : List Located) : Prop :=
  ∀ us rest links, ReadsLinks AtEnd 6 us rest links → Ended rest →
    ∃ flat, ReadsFlat AtEnd 6 (ts ++ us) rest flat

theorem Extends.atom {ts : List Located} (h : ∀ rest, ∃ e, Reads AtEnd 7 ts rest e) :
    Extends ts := by
  intro us rest links hus _
  obtain ⟨e, he⟩ := h (us ++ rest)
  exact ⟨(e, links), ts, us, rfl, he.tighter, hus⟩

theorem Extends.reads {ts rest : List Located} (h : Extends ts) (hrest : Ended rest) :
    ∃ e, Reads AtEnd 0 ts rest e := by
  obtain ⟨flat, hflat⟩ := h [] rest [] .nil hrest
  rw [List.append_nil] at hflat
  exact ⟨_, hflat.assemble⟩

theorem Ended.cons {next : Located} (h : next.token.endsExpr = true) (after : List Located) :
    Ended (next :: after) :=
  ⟨next, after, rfl, h⟩

/-- The alternative takes what comes after the conditional. -/
theorem Extends.conditional {if_ then_ else_ : Located} {cs bs as : List Located}
    (hif : if_.token = .kwIf) (hcs : Extends cs) (hthen : then_.token = .kwThen)
    (hbs : Extends bs) (helse : else_.token = .kwElse) (has : Extends as) :
    Extends (if_ :: cs ++ then_ :: (bs ++ else_ :: as)) := by
  intro us rest links hus hrest
  obtain ⟨flat, hflat⟩ := has us rest links hus hrest
  obtain ⟨consequent, hconsequent⟩ :=
    hbs.reads (.cons (by rw [helse]; rfl) (as ++ us ++ rest))
  obtain ⟨condition, hcondition⟩ :=
    hcs.reads (.cons (by rw [hthen]; rfl) (bs ++ else_ :: (as ++ us ++ rest)))
  have hconditional := Reads.conditional hif hcondition hthen hconsequent helse hflat.assemble hrest
  have hflat' := ReadsFlat.single hconditional.tighter
  exact ⟨_, by simpa using hflat'⟩

theorem Extends.sign {s : Located} {ts : List Located} {op : UnaryOp} (hs : s.token = op.token)
    (h : Extends ts) : Extends (s :: ts) := by
  intro us rest links hus hrest
  obtain ⟨flat, head, tail, heq, hhead, htail⟩ := h us rest links hus hrest
  refine ⟨(_, flat.2), s :: head, tail, ?_, Reads.sign hs hhead, htail⟩
  rw [List.cons_append, heq, List.cons_append]

/-- An operator and an operand before others. -/
theorem Extends.links {o : Located} {rs us rest : List Located} {op : BinaryOp}
    {links : List (BinaryOp × Expr)} (ho : o.token = op.token) (h : Extends rs)
    (hus : ReadsLinks AtEnd 6 us rest links) (hrest : Ended rest) :
    ∃ links, ReadsLinks AtEnd 6 (o :: (rs ++ us)) rest links := by
  obtain ⟨flat, head, tail, heq, hhead, htail⟩ := h us rest links hus hrest
  rw [← heq]
  exact ⟨_, .cons ho hhead htail⟩

theorem Extends.binary {o : Located} {ls rs : List Located} {op : BinaryOp}
    (hls : Extends ls) (ho : o.token = op.token) (hrs : Extends rs) :
    Extends (ls ++ o :: rs) := by
  intro us rest links hus hrest
  obtain ⟨links', hlinks⟩ := hrs.links ho hus hrest
  rw [List.append_assoc, List.cons_append]
  exact hls _ rest links' hlinks hrest

mutual

theorem Reads.extends : ∀ {rank : Nat} {ts rest : List Located} {e : Expr},
    Reads Anywhere rank ts rest e → Extends ts
  | _, _, _, _, .literal ht => .atom fun _ => ⟨_, .literal ht⟩
  | _, _, _, _, .var ht => .atom fun _ => ⟨_, .var ht⟩
  | _, _, _, _, .call ht hopen hus hclose => by
    refine .atom fun rest => ?_
    obtain ⟨arguments, harguments⟩ := hus.extends (.cons (by rw [hclose]; rfl) rest)
    exact ⟨_, .call ht hopen harguments hclose⟩
  | _, _, _, _, .group hopen hus hclose => by
    refine .atom fun rest => ?_
    obtain ⟨e, he⟩ := hus.extends.reads (.cons (by rw [hclose]; rfl) rest)
    exact ⟨e, .group hopen he hclose⟩
  | _, _, _, _, .conditional hif hcs hthen hbs helse has _ =>
    .conditional hif hcs.extends hthen hbs.extends helse has.extends
  | _, _, _, _, .sign ht hts => .sign ht hts.extends
  | _, _, _, _, .binary hls ho hrs => .binary hls.extends ho hrs.extends
  | _, _, _, _, .tighter h => h.extends

theorem ReadsArguments.extends : ∀ {us rest : List Located} {es : List Expr},
    ReadsArguments Anywhere us rest es → ∀ {rest' : List Located}, Ended rest' →
    ∃ es', ReadsArguments AtEnd us rest' es'
  | _, _, _, .none, _, _ => ⟨[], .none⟩
  | _, _, _, .last h, _, hrest => by
    obtain ⟨e, he⟩ := h.extends.reads hrest
    exact ⟨[e], .last he⟩
  | _, _, _, .more h hcomma hothers, rest', hrest => by
    obtain ⟨others, hothers'⟩ := hothers.extends hrest
    obtain ⟨e, he⟩ := h.extends.reads (.cons (by rw [hcomma]; rfl) _)
    exact ⟨e :: others, .more he hcomma hothers'⟩

end

/-- Some reading of an expression has every alternative at the end. -/
theorem Reads.exists_atEnd {rank : Nat} {ts rest : List Located} {e : Expr}
    (h : Reads Anywhere rank ts rest e) (hrest : Ended rest) : ∃ e', Reads AtEnd 0 ts rest e' :=
  h.extends.reads hrest

/-! ## Alternatives at the end extend farthest -/

theorem Stage.moveEnd_nil_ne_proceed (goal : Goal) (e : Expr) (t : Located) (stage : Stage) :
    Stage.moveEnd goal [] e t ≠ some (.proceed stage) := by
  unfold Stage.moveEnd
  split <;> simp_all

/-- No expression goes on from the end of an alternative: a longer one would lead the
stages over the token that ends the alternative. -/
theorem Reads.farthest_of_ended {as rest : List Located} {a : Expr}
    (h : Reads AtEnd 0 as rest a) (hrest : Ended rest) : Farthest as rest := by
  intro longer shorter e heq hlonger
  obtain ⟨next, after, rfl, hnext⟩ := hrest
  rcases List.append_eq_append_iff.1 heq with ⟨more, rfl, _⟩ | ⟨more, rfl, htail⟩
  · simp
  · cases more with
    | nil => simp
    | cons next' more =>
      obtain ⟨rfl, rfl⟩ := List.cons.inj htail
      obtain ⟨e', he'⟩ := hlonger.extends.reads (Ended.cons hnext [])
      obtain ⟨stage, hadvance, _⟩ := he'.feeds.ending hnext 0 .statement []
      obtain ⟨reached, has, hmove⟩ := h.feeds.ending hnext 0 .statement []
      rw [Stage.advance_trans has, Stage.advance, hmove] at hadvance
      split at hadvance
      case h_1 hproceed => exact absurd hproceed (Stage.moveEnd_nil_ne_proceed _ _ _ _)
      case h_2 => contradiction

theorem Reads.farthest {rank : Nat} {ts rest : List Located} {e : Expr}
    (h : Reads AtEnd rank ts rest e) : Reads Farthest rank ts rest e :=
  h.imp fun has hend => has.farthest_of_ended hend

/-! ## Alternatives that extend farthest are at the end -/

theorem Continued.operator {o : Located} {rs rest : List Located} {op : BinaryOp}
    (ho : o.token = op.token) (hrs : Extends rs) (hrest : Continued rest) :
    Continued (o :: (rs ++ rest)) := by
  obtain @⟨us, after, links, rfl, hus, hafter⟩ := hrest
  obtain ⟨links', hlinks⟩ := hrs.links ho hus hafter
  exact ⟨by simp, hlinks, hafter⟩

/-- The alternative with the operators after it would be longer. -/
theorem Farthest.ended {as rest : List Located} {a : Expr} (hfar : Farthest as rest)
    (has : Reads Anywhere 0 as rest a) (hrest : Continued rest) : Ended rest := by
  obtain @⟨us, after, links, rfl, hus, hafter⟩ := hrest
  obtain ⟨flat, hflat⟩ := has.extends us after links hus hafter
  have hlength := hfar (as ++ us) after _ (by simp) hflat.assemble.anywhere
  rw [List.length_append] at hlength
  obtain rfl : us = [] := List.eq_nil_of_length_eq_zero (by omega)
  exact hafter

mutual

theorem Reads.atEnd : ∀ {rank : Nat} {ts rest : List Located} {e : Expr},
    Reads Farthest rank ts rest e → Continued rest → Reads AtEnd rank ts rest e
  | _, _, _, _, .literal ht, _ => .literal ht
  | _, _, _, _, .var ht, _ => .var ht
  | _, _, _, _, .call ht hopen hus hclose, _ =>
    .call ht hopen (hus.atEnd (.cons (by rw [hclose]; rfl) _)) hclose
  | _, _, _, _, .group hopen hus hclose, _ =>
    .group hopen (hus.atEnd (Ended.cons (by rw [hclose]; rfl) _).continued) hclose
  | _, _, _, _, .conditional hif hcs hthen hbs helse has hfar, hrest =>
    .conditional hif (hcs.atEnd (Ended.cons (by rw [hthen]; rfl) _).continued) hthen
      (hbs.atEnd (Ended.cons (by rw [helse]; rfl) _).continued) helse (has.atEnd hrest)
      (hfar.ended has.anywhere hrest)
  | _, _, _, _, .sign ht hts, hrest => .sign ht (hts.atEnd hrest)
  | _, _, _, _, .binary hls ho hrs, hrest =>
    .binary (hls.atEnd (hrest.operator ho hrs.anywhere.extends)) ho (hrs.atEnd hrest)
  | _, _, _, _, .tighter h, hrest => (h.atEnd hrest).tighter

theorem ReadsArguments.atEnd : ∀ {us rest : List Located} {es : List Expr},
    ReadsArguments Farthest us rest es → Ended rest → ReadsArguments AtEnd us rest es
  | _, _, _, .none, _ => .none
  | _, _, _, .last h, hrest => .last (h.atEnd hrest.continued)
  | _, _, _, .more h hcomma hothers, hrest =>
    .more (h.atEnd (Ended.cons (by rw [hcomma]; rfl) _).continued) hcomma (hothers.atEnd hrest)

end

/-! ## Programs -/

section Items

variable {far far' : List Located → List Located → Prop}

mutual

/-- A reading of items, with the expressions in it read in another way. -/
theorem ReadsItem.imp
    (himp : ∀ {ts rest e}, Ended rest → Reads far 0 ts rest e → Reads far' 0 ts rest e) :
    ∀ {ts rest : List Located} {item : Item},
    ReadsItem far ts rest item → ReadsItem far' ts rest item
  | _, _, _, .var hvar ht hcolon hts .absent hsemicolon =>
    .var hvar ht hcolon hts .absent hsemicolon
  | _, _, _, .var hvar ht hcolon hts (.present hassign hes) hsemicolon =>
    .var hvar ht hcolon hts
      (.present hassign (himp (.cons (by rw [hsemicolon]; rfl) _) hes)) hsemicolon
  | _, _, _, .fn hfn ht hopen hps hclose harrow hts hsemicolon =>
    .fn hfn ht hopen hps hclose harrow hts hsemicolon
  | _, _, _, .block hopen hts hclose => .block hopen (hts.imp himp) hclose
  | _, _, _, .expr hts hsemicolon =>
    .expr (himp (.cons (by rw [hsemicolon]; rfl) _) hts) hsemicolon

theorem ReadsItems.imp
    (himp : ∀ {ts rest e}, Ended rest → Reads far 0 ts rest e → Reads far' 0 ts rest e) :
    ∀ {ts rest : List Located} {items : List Item},
    ReadsItems far ts rest items → ReadsItems far' ts rest items
  | _, _, _, .nil => .nil
  | _, _, _, .cons hitem hothers => .cons (hitem.imp himp) (hothers.imp himp)

end

end Items

mutual

/-- Some reading of an item has every alternative at the end. -/
theorem ReadsItem.exists_atEnd : ∀ {ts rest : List Located} {item : Item},
    ReadsItem Anywhere ts rest item → ∃ item', ReadsItem AtEnd ts rest item'
  | _, _, _, .var hvar ht hcolon hts .absent hsemicolon =>
    ⟨_, .var hvar ht hcolon hts .absent hsemicolon⟩
  | _, _, _, .var hvar ht hcolon hts (.present hassign hes) hsemicolon => by
    obtain ⟨e, he⟩ := hes.exists_atEnd (.cons (by rw [hsemicolon]; rfl) _)
    exact ⟨_, .var hvar ht hcolon hts (.present hassign he) hsemicolon⟩
  | _, _, _, .fn hfn ht hopen hps hclose harrow hts hsemicolon =>
    ⟨_, .fn hfn ht hopen hps hclose harrow hts hsemicolon⟩
  | _, _, _, .block hopen hts hclose => by
    obtain ⟨items, hitems⟩ := hts.exists_atEnd
    exact ⟨_, .block hopen hitems hclose⟩
  | _, _, _, .expr hts hsemicolon => by
    obtain ⟨e, he⟩ := hts.exists_atEnd (.cons (by rw [hsemicolon]; rfl) _)
    exact ⟨_, .expr he hsemicolon⟩

theorem ReadsItems.exists_atEnd : ∀ {ts rest : List Located} {items : List Item},
    ReadsItems Anywhere ts rest items → ∃ items', ReadsItems AtEnd ts rest items'
  | _, _, _, .nil => ⟨[], .nil⟩
  | _, _, _, .cons hitem hothers => by
    obtain ⟨item, hitem'⟩ := hitem.exists_atEnd
    obtain ⟨others, hothers'⟩ := hothers.exists_atEnd
    exact ⟨item :: others, .cons hitem' hothers'⟩

end

theorem readsItems_farthest_iff_atEnd {ts rest : List Located} {items : List Item} :
    ReadsItems Farthest ts rest items ↔ ReadsItems AtEnd ts rest items :=
  ⟨fun h => h.imp fun hrest he => he.atEnd hrest.continued,
    fun h => h.imp fun _ he => he.farthest⟩

/-- What a parse gives is the reading of its tokens with alternatives at the end. -/
theorem ofTokens_eq_ok_iff {length : Nat} {tokens : List Located} {program : Program} :
    Program.ofTokens length tokens = .ok program ↔
      program.span = spanOfTokens length tokens ∧ ReadsItems AtEnd tokens [] program.items := by
  constructor
  · exact readsItems_of_ofTokens
  · rintro ⟨hspan, hitems⟩
    rw [hitems.ofTokens length, ← hspan]

/-- The parser accepts the programs of the grammar and no others.  The tree that it
gives is the one reading of all the tokens in which every alternative extends as far to
the right as possible. -/
theorem ofTokens_accepts_grammar (length : Nat) (tokens : List Located) :
    ((∃ program, Program.ofTokens length tokens = .ok program) ↔
      ∃ items, ReadsItems Anywhere tokens [] items) ∧
    ∀ program, Program.ofTokens length tokens = .ok program ↔
      program.span = spanOfTokens length tokens ∧
        ReadsItems Farthest tokens [] program.items := by
  refine ⟨⟨?_, ?_⟩, ?_⟩
  · rintro ⟨program, h⟩
    exact ⟨program.items, (ofTokens_eq_ok_iff.1 h).2.imp fun _ he => he.anywhere⟩
  · rintro ⟨items, h⟩
    obtain ⟨items', h'⟩ := h.exists_atEnd
    exact ⟨_, h'.ofTokens length⟩
  · intro program
    rw [readsItems_farthest_iff_atEnd]
    exact ofTokens_eq_ok_iff

end TagLang
