import TagLang.Proofs.Nesting
import TagLang.Proofs.Parsing
import TagLang.Proofs.Stages
import TagLang.Proofs.Walk

/-!
# How deep the tree of a program is nested

The nesting is checked on the tokens, and the tree is made of them afterwards.  This module says
that the check of the tokens bounds the nesting of the tree.

* `Node` is a node of a tree, and `Node.path?` are the nodes from there down to a leaf.  `nested`
  counts the blocks, calls and conditionals of a path.
* `Reads.after_eq` and `ReadsItem.after_eq` say what the productions do to the count.  An
  expression adds to the `if`s of the level on which it stands and ends none of them, and an item
  leaves no `if` behind.
* `Reads.fits` and `ReadsItem.fits` follow the productions again: where the count stays within a
  limit, so does the nesting on every path.
* `parse_paths_nested_le` is the result for sources.
-/

namespace TagLang

/-! ## Paths -/

/-- A node of the tree of a program. -/
inductive Node where
  | program (program : Program)
  | item (item : Item)
  | expr (e : Expr)

namespace Node

/-- The nodes directly below a node.  Names and ascriptions are not nodes of their own. -/
def children : Node → List Node
  | program p => p.items.map item
  | item (.var declaration) => declaration.initializer.toList.map expr
  | item (.fn _) => []
  | item (.block items _) => items.map item
  | item (.expr e) => [expr e]
  | expr e => e.parts.map expr

/-- Blocks, calls and conditionals nest what is below them. -/
def nests : Node → Bool
  | item (.block _ _) | expr (.call _ _ _) | expr (.conditional _ _ _ _) => true
  | _ => false

end Node

/-- The nodes on the path from a node down to a leaf.  At each node, one of the turns says to which
of the nodes below it the path goes on. -/
def Node.path? : List Nat → Node → Option (List Node)
  | [], node => if node.children.isEmpty then some [node] else none
  | turn :: turns, node => do
    let child ← node.children[turn]?
    let path ← child.path? turns
    some (node :: path)

/-- The number of blocks, calls and conditionals on a path. -/
def nested (path : List Node) : Nat :=
  path.countP Node.nests

/-- Every path from the node down fits below a depth, within the limit. -/
def Node.Fits (limit depth : Nat) (node : Node) : Prop :=
  ∀ turns path, node.path? turns = some path → depth + nested path ≤ limit

section Fits

variable {limit depth : Nat} {node : Node}

theorem nested_cons (path : List Node) :
    nested (node :: path) = node.nests.toNat + nested path := by
  cases h : node.nests <;> simp [nested, h, Nat.add_comm]

theorem Node.Fits.mono {depth' : Nat} (h : node.Fits limit depth') (hle : depth ≤ depth') :
    node.Fits limit depth := by
  intro turns path hpath
  have := h turns path hpath
  omega

/-- A node fits if the nodes below it fit, one deeper if the node nests them. -/
theorem Node.Fits.of_children (inner : Nat) (hdepth : depth + node.nests.toNat ≤ inner)
    (hinner : inner ≤ limit) (hchildren : ∀ child ∈ node.children, child.Fits limit inner) :
    node.Fits limit depth := by
  intro turns path hpath
  cases turns with
  | nil =>
    simp only [path?, Option.ite_none_right_eq_some, Option.some.injEq] at hpath
    rw [← hpath.2, nested_cons, nested, List.countP_nil]
    omega
  | cons turn turns =>
    simp only [path?, Option.bind_eq_bind, Option.bind_eq_some_iff, Option.some.injEq] at hpath
    obtain ⟨child, hchild, below, hbelow, rfl⟩ := hpath
    have hle := hchildren child (List.mem_of_getElem? hchild) turns below hbelow
    rw [nested_cons]
    omega

theorem Node.Fits.of_parts {e : Expr} (inner : Nat) (hdepth : depth + (expr e).nests.toNat ≤ inner)
    (hinner : inner ≤ limit) (hparts : ∀ part ∈ e.parts, (expr part).Fits limit inner) :
    (expr e).Fits limit depth :=
  .of_children inner hdepth hinner (List.forall_mem_map.2 hparts)

end Fits

/-! ## What the productions do to the count -/

namespace Nesting

/-- The count after some more `if`s on the innermost level. -/
def addIfs (n : Nesting) (k : Nat) : Nesting :=
  ⟨n.depth + k, n.ifs + k, n.outer⟩

/-- The count after an opening bracket. -/
def enter (n : Nesting) : Nesting :=
  ⟨n.depth + 1, 0, n.ifs :: n.outer⟩

variable {n : Nesting} {t : Token}

@[simp]
theorem addIfs_zero (n : Nesting) : n.addIfs 0 = n := rfl

theorem addIfs_addIfs (n : Nesting) (j k : Nat) : (n.addIfs j).addIfs k = n.addIfs (j + k) := by
  simp only [addIfs, Nat.add_assoc]

theorem step_opening (h : t.role = .opening) : n.step t = n.enter := by
  rw [step_eq, h, enter]

/-- What was counted in a bracket is taken off with it. -/
theorem step_closing (h : t.role = .closing) (k : Nat) : (n.enter.addIfs k).step t = n := by
  rw [step_eq, h]
  simp only [addIfs, enter]
  rw [show n.depth + 1 + k - (1 + (0 + k)) = n.depth by omega]

theorem step_branching (h : t.role = .branching) : n.step t = n.addIfs 1 := by
  rw [step_eq, h, addIfs]

/-- The end of an expression takes off all `if`s of the level. -/
theorem step_ending (h : t.role = .ending) (hn : n.ifs = 0) (k : Nat) :
    (n.addIfs k).step t = n := by
  rw [step_eq, h]
  simp only [addIfs, hn, Nat.zero_add, Nat.add_sub_cancel]
  rw [← hn]

theorem step_plain (h : t.role = .plain) : n.step t = n := by
  rw [step_eq, h]

theorem after_plain {ts : List Located} (h : ∀ t ∈ ts, t.token.role = .plain) : n.after ts = n := by
  induction ts with
  | nil => rfl
  | cons t ts ih =>
    rw [List.forall_mem_cons] at h
    rw [after_cons, step_plain h.1, ih h.2]

end Nesting

theorem Literal.role_token (value : Literal) : value.token.role = .plain := by
  cases value <;> rfl

theorem UnaryOp.role_token (op : UnaryOp) : op.token.role = .plain := by
  cases op <;> rfl

theorem BinaryOp.role_token (op : BinaryOp) : op.token.role = .plain := by
  cases op <;> rfl

section After

variable {far : List Located → List Located → Prop}

open Nesting

mutual

/-- An expression ends no `if` of the level on which it stands.  Brackets in it are closed in it. -/
theorem Reads.after_eq : ∀ {rank : Nat} {ts rest : List Located} {e : Expr},
    Reads far rank ts rest e → ∀ n : Nesting, ∃ k, n.after ts = n.addIfs k
  | _, _, _, _, .literal ht, n => by
    refine ⟨0, ?_⟩
    rw [after_cons, ht, step_plain (Literal.role_token _), after_nil, addIfs_zero]
  | _, _, _, _, .var ht, n => by
    refine ⟨0, ?_⟩
    rw [after_cons, ht, step_plain rfl, after_nil, addIfs_zero]
  | _, _, _, _, .call ht hopen hus hclose, n => by
    obtain ⟨k, hk⟩ := hus.after_eq n.enter rfl
    refine ⟨0, ?_⟩
    rw [List.cons_append, after_cons, ht, step_plain rfl]
    rw [List.cons_append, after_cons, hopen, step_opening rfl, after_append, hk]
    rw [after_cons, hclose, step_closing rfl, after_nil, addIfs_zero]
  | _, _, _, _, .group hopen hus hclose, n => by
    obtain ⟨k, hk⟩ := hus.after_eq n.enter
    refine ⟨0, ?_⟩
    rw [List.cons_append, after_cons, hopen, step_opening rfl, after_append, hk]
    rw [after_cons, hclose, step_closing rfl, after_nil, addIfs_zero]
  | _, _, _, _, .conditional hif hcs hthen hbs helse has _, n => by
    obtain ⟨i, hi⟩ := hcs.after_eq (n.addIfs 1)
    obtain ⟨j, hj⟩ := hbs.after_eq ((n.addIfs 1).addIfs i)
    obtain ⟨k, hk⟩ := has.after_eq (((n.addIfs 1).addIfs i).addIfs j)
    refine ⟨1 + i + j + k, ?_⟩
    rw [List.cons_append, after_cons, hif, step_branching rfl, after_append, hi]
    rw [after_cons, hthen, step_plain rfl, after_append, hj]
    rw [after_cons, helse, step_plain rfl, hk]
    simp only [addIfs_addIfs]
  | _, _, _, _, .sign hs hts, n => by
    rw [after_cons, hs, step_plain (UnaryOp.role_token _)]
    exact hts.after_eq n
  | _, _, _, _, .binary hls ho hrs, n => by
    obtain ⟨j, hj⟩ := hls.after_eq n
    obtain ⟨k, hk⟩ := hrs.after_eq (n.addIfs j)
    refine ⟨j + k, ?_⟩
    rw [after_append, hj, after_cons, ho, step_plain (BinaryOp.role_token _), hk, addIfs_addIfs]
  | _, _, _, _, .tighter h, n => h.after_eq n

/-- The commas of an argument list take off the `if`s of the arguments before them. -/
theorem ReadsArguments.after_eq : ∀ {us rest : List Located} {es : List Expr},
    ReadsArguments far us rest es → ∀ n : Nesting, n.ifs = 0 → ∃ k, n.after us = n.addIfs k
  | _, _, _, .none, n, _ => ⟨0, rfl⟩
  | _, _, _, .last h, n, _ => h.after_eq n
  | _, _, _, .more h hcomma hothers, n, hn => by
    obtain ⟨k, hk⟩ := h.after_eq n
    rw [after_append, hk, after_cons, hcomma, step_ending rfl hn]
    exact hothers.after_eq n hn

end

theorem ReadsAscription.role_eq_plain {ts : List Located} {ascription : Ascription}
    (h : ReadsAscription ts ascription) : ∀ t ∈ ts, t.token.role = .plain := by
  induction h with
  | base ht => simp [ht, Token.role]
  | bar _ hbar ht ih =>
    intro u hu
    rcases List.mem_append.1 hu with hu | hu
    · exact ih u hu
    · simp only [List.mem_cons, List.not_mem_nil, or_false] at hu
      rcases hu with rfl | rfl <;> simp [hbar, ht, Token.role]

theorem ReadsParameter.role_eq_plain {ts : List Located} {parameter : Parameter}
    (h : ReadsParameter ts parameter) : ∀ t ∈ ts, t.token.role = .plain := by
  cases h with
  | bare ht => simp [ht, Token.role]
  | ascribed ht hcolon hts => simpa [ht, hcolon, Token.role] using hts.role_eq_plain

theorem ReadsParameters.after_eq {ts : List Located} {parameters : List Parameter}
    (h : ReadsParameters ts parameters) {n : Nesting} (hn : n.ifs = 0) : n.after ts = n := by
  induction h with
  | none => rfl
  | last h => exact after_plain h.role_eq_plain
  | more h hcomma _ ih =>
    rw [after_append, after_plain h.role_eq_plain, after_cons, hcomma, ← addIfs_zero n,
      step_ending rfl hn, addIfs_zero, ih]

theorem ReadsInitializer.after_eq {us rest : List Located} {initializer : Option Expr}
    (h : ReadsInitializer far us rest initializer) (n : Nesting) :
    ∃ k, n.after us = n.addIfs k := by
  cases h with
  | absent => exact ⟨0, rfl⟩
  | present hassign h =>
    rw [after_cons, hassign, step_plain rfl]
    exact h.after_eq n

mutual

/-- The count is the same after an item as before it. -/
theorem ReadsItem.after_eq : ∀ {ts rest : List Located} {item : Item},
    ReadsItem far ts rest item → ∀ n : Nesting, n.ifs = 0 → n.after ts = n
  | _, _, _, .var hvar ht hcolon hts hus hsemicolon, n, hn => by
    obtain ⟨k, hk⟩ := hus.after_eq n
    rw [after_cons, hvar, step_plain rfl, after_cons, ht, step_plain rfl, after_cons, hcolon,
      step_plain rfl, after_append, after_append, after_plain hts.role_eq_plain, hk]
    rw [after_cons, hsemicolon, step_ending rfl hn, after_nil]
  | _, _, _, .fn hfn ht hopen hps hclose harrow hts hsemicolon, n, hn => by
    rw [after_cons, hfn, step_plain rfl, after_cons, ht, step_plain rfl, after_cons, hopen,
      step_opening rfl, after_append, hps.after_eq rfl, ← addIfs_zero n.enter]
    rw [after_cons, hclose, step_closing rfl, after_cons, harrow, step_plain rfl, after_append,
      after_plain hts.role_eq_plain, ← addIfs_zero n]
    rw [after_cons, hsemicolon, step_ending rfl hn, after_nil, addIfs_zero]
  | _, _, _, .block hopen hts hclose, n, _ => by
    rw [List.cons_append, after_cons, hopen, step_opening rfl, after_append,
      hts.after_eq n.enter rfl, ← addIfs_zero n.enter]
    rw [after_cons, hclose, step_closing rfl, after_nil]
  | _, _, _, .expr h hsemicolon, n, hn => by
    obtain ⟨k, hk⟩ := h.after_eq n
    rw [after_append, hk, after_cons, hsemicolon, step_ending rfl hn, after_nil]

theorem ReadsItems.after_eq : ∀ {ts rest : List Located} {items : List Item},
    ReadsItems far ts rest items → ∀ n : Nesting, n.ifs = 0 → n.after ts = n
  | _, _, _, .nil, _, _ => rfl
  | _, _, _, .cons h hothers, n, hn => by
    rw [after_append, h.after_eq n hn, hothers.after_eq n hn]

end

end After

/-! ## The count bounds the nesting -/

section Bounded

variable {far : List Located → List Located → Prop} {limit : Nat}

open Nesting

mutual

/-- Where the count of the tokens of an expression stays within the limit, every path from the
expression down fits below the depth at which the count began. -/
theorem Reads.fits : ∀ {rank : Nat} {ts rest : List Located} {e : Expr},
    Reads far rank ts rest e → ∀ n : Nesting, n.Within limit ts → (Node.expr e).Fits limit n.depth
  | _, _, _, _, .literal _, n, hw => .of_parts n.depth (Nat.le_refl _) hw.depth_le nofun
  | _, _, _, _, .var _, n, hw => .of_parts n.depth (Nat.le_refl _) hw.depth_le nofun
  | _, _, _, _, .call ht hopen hus _, n, hw => by
    rw [List.cons_append, within_cons, ht, step_plain rfl, List.cons_append, within_cons, hopen,
      step_opening rfl, within_append] at hw
    obtain ⟨-, -, hinner, -⟩ := hw
    exact .of_parts (n.depth + 1) (Nat.le_refl _) hinner.depth_le (hus.fits n.enter rfl hinner)
  | _, _, _, _, .group hopen hus _, n, hw => by
    rw [List.cons_append, within_cons, hopen, step_opening rfl, within_append] at hw
    obtain ⟨-, hinner, -⟩ := hw
    exact (hus.fits n.enter hinner).mono (Nat.le_succ _)
  | _, _, _, _, .conditional hif hcs hthen hbs helse has _, n, hw => by
    obtain ⟨i, hi⟩ := hcs.after_eq (n.addIfs 1)
    obtain ⟨j, hj⟩ := hbs.after_eq ((n.addIfs 1).addIfs i)
    rw [List.cons_append, within_cons, hif, step_branching rfl, within_append, hi, within_cons,
      hthen, step_plain rfl, within_append, hj, within_cons, helse, step_plain rfl] at hw
    obtain ⟨-, hcondition, -, hconsequent, -, halternative⟩ := hw
    have hinner : n.depth + 1 ≤ limit := hcondition.depth_le
    refine .of_parts (n.depth + 1) (Nat.le_refl _) hinner ?_
    -- The later parts are counted on top of the `if`s of the parts before them.
    simp only [Expr.parts, List.forall_mem_cons]
    refine ⟨hcs.fits _ hcondition, ?_, ?_, nofun⟩
    · exact (hbs.fits _ hconsequent).mono (Nat.le_add_right _ i)
    · exact ((has.fits _ halternative).mono (Nat.le_add_right _ j)).mono (Nat.le_add_right _ i)
  | _, _, _, _, .sign hs hts, n, hw => by
    rw [within_cons, hs, step_plain (UnaryOp.role_token _)] at hw
    refine .of_parts n.depth (Nat.le_refl _) hw.1 ?_
    exact List.forall_mem_singleton.2 (hts.fits n hw.2)
  | _, _, _, _, .binary hls ho hrs, n, hw => by
    obtain ⟨j, hj⟩ := hls.after_eq n
    rw [within_append, hj, within_cons, ho, step_plain (BinaryOp.role_token _)] at hw
    obtain ⟨hleft, -, hright⟩ := hw
    refine .of_parts n.depth (Nat.le_refl _) hleft.depth_le ?_
    simp only [Expr.parts, List.forall_mem_cons]
    exact ⟨hls.fits n hleft, (hrs.fits _ hright).mono (Nat.le_add_right _ j), nofun⟩
  | _, _, _, _, .tighter h, n, hw => h.fits n hw

theorem ReadsArguments.fits : ∀ {us rest : List Located} {es : List Expr},
    ReadsArguments far us rest es → ∀ n : Nesting, n.ifs = 0 → n.Within limit us →
      ∀ e ∈ es, (Node.expr e).Fits limit n.depth
  | _, _, _, .none, n, _, _ => nofun
  | _, _, _, .last h, n, _, hw => by
    exact List.forall_mem_singleton.2 (h.fits n hw)
  | _, _, _, .more h hcomma hothers, n, hn, hw => by
    obtain ⟨k, hk⟩ := h.after_eq n
    rw [within_append, hk, within_cons, hcomma, step_ending rfl hn] at hw
    obtain ⟨hfirst, -, hrest⟩ := hw
    rw [List.forall_mem_cons]
    exact ⟨h.fits n hfirst, hothers.fits n hn hrest⟩

end

theorem ReadsInitializer.fits {us rest : List Located} {initializer : Option Expr}
    (h : ReadsInitializer far us rest initializer) {n : Nesting} (hw : n.Within limit us) :
    ∀ e ∈ initializer.toList, (Node.expr e).Fits limit n.depth := by
  cases h with
  | absent => exact nofun
  | present hassign h =>
    rw [within_cons, hassign, step_plain rfl] at hw
    exact List.forall_mem_singleton.2 (h.fits n hw.2)

mutual

theorem ReadsItem.fits : ∀ {ts rest : List Located} {item : Item},
    ReadsItem far ts rest item → ∀ n : Nesting, n.ifs = 0 → n.Within limit ts →
      (Node.item item).Fits limit n.depth
  | _, _, _, .var hvar ht hcolon hts hus _, n, _, hw => by
    rw [within_cons, hvar, step_plain rfl, within_cons, ht, step_plain rfl, within_cons, hcolon,
      step_plain rfl, within_append, within_append, after_plain hts.role_eq_plain] at hw
    obtain ⟨hdepth, -, -, ⟨-, hinitializer⟩, -⟩ := hw
    refine .of_children n.depth (Nat.le_refl _) hdepth ?_
    exact List.forall_mem_map.2 (hus.fits hinitializer)
  | _, _, _, .fn _ _ _ _ _ _ _ _, n, _, hw =>
    .of_children n.depth (Nat.le_refl _) hw.depth_le nofun
  | _, _, _, .block hopen hts _, n, _, hw => by
    rw [List.cons_append, within_cons, hopen, step_opening rfl, within_append] at hw
    obtain ⟨-, hinner, -⟩ := hw
    refine .of_children (n.depth + 1) (Nat.le_refl _) hinner.depth_le ?_
    exact List.forall_mem_map.2 (hts.fits n.enter rfl hinner)
  | _, _, _, .expr h _, n, _, hw => by
    rw [within_append] at hw
    refine .of_children n.depth (Nat.le_refl _) hw.1.depth_le ?_
    exact List.forall_mem_singleton.2 (h.fits n hw.1)

theorem ReadsItems.fits : ∀ {ts rest : List Located} {items : List Item},
    ReadsItems far ts rest items → ∀ n : Nesting, n.ifs = 0 → n.Within limit ts →
      ∀ item ∈ items, (Node.item item).Fits limit n.depth
  | _, _, _, .nil, _, _, _ => nofun
  | _, _, _, .cons h hothers, n, hn, hw => by
    rw [within_append, h.after_eq n hn] at hw
    rw [List.forall_mem_cons]
    exact ⟨h.fits n hn hw.1, hothers.fits n hn hw.2⟩

end

end Bounded

/-- The check of the nesting bounds the nesting of the tree.  If a source is read as a program,
there are at most as many blocks, calls and conditionals on a path from the root of the program to
a leaf as the limit allows. -/
theorem parse_paths_nested_le {log : Log} {limit : Nat} {source : String} {program : Program}
    (h : (log.parse limit source).1 = some program) :
    ∀ turns path, (Node.program program).path? turns = some path → nested path ≤ limit := by
  obtain ⟨hdepth, hread, -, -⟩ := Log.parse_eq_some_iff.1 h
  have hwithin : Nesting.start.Within limit (tokens source) :=
    Nesting.exceeding?_eq_none_iff.1 hdepth
  have hitems : ReadsItems AtEnd (tokens source) [] program.items := (ofTokens_eq_ok_iff.1 hread).2
  have hfits : (Node.program program).Fits limit 0 := by
    refine .of_children 0 (Nat.le_refl _) (Nat.zero_le limit) ?_
    exact List.forall_mem_map.2 (hitems.fits .start rfl hwithin)
  intro turns path hpath
  simpa using hfits turns path hpath

/-- A call in the argument of a call in a block, and a conditional in the same place. -/
theorem parse_paths_nested_le_attained :
    ∃ program, (Log.empty.parse 3 "{f(if a then 1 else 2,g());}").1 = some program ∧
      ((Node.program program).path? [0, 0, 0, 0, 2]).map nested = some 3 ∧
      ((Node.program program).path? [0, 0, 0, 1]).map nested = some 3 ∧
      ∀ turns path, (Node.program program).path? turns = some path → nested path ≤ 3 := by
  have hpaths : (Log.empty.parse 3 "{f(if a then 1 else 2,g());}").1.map
      (fun program => (((Node.program program).path? [0, 0, 0, 0, 2]).map nested,
        ((Node.program program).path? [0, 0, 0, 1]).map nested)) = some (some 3, some 3) := by
    decide +kernel
  obtain ⟨program, hprogram, hnested⟩ := Option.map_eq_some_iff.1 hpaths
  obtain ⟨hconditional, hcall⟩ := Prod.mk.inj hnested
  exact ⟨program, hprogram, hconditional, hcall, parse_paths_nested_le hprogram⟩

end TagLang
