import TagLang.Proofs.Grammar
import TagLang.Tree.Precedence

/-!
# Grouping by precedence is the grammar

An expression is read as a flat chain of operands, and `assemble` groups it.  This
module shows that the grouping is the one of the grammar.

* `assemble_append`: an operator that binds least tightly, and the last of its level,
  splits a chain in two.  This is the fact that the ranks of the grammar rest on.
* `ReadsFlat` is a chain whose operands the grammar reads, and `ReadsLinks` its tail:
  operators, each with the operand after it.
* `ReadsFlat.merge` and `ReadsFlat.assemble`: the grammar reads the tokens of a chain
  as the tree that is made of it.
-/

namespace TagLang

/-! ## Levels -/

theorem Level.rank_injective {a b : Level} (h : a.rank = b.rank) : a = b := by
  revert h
  cases a <;> cases b <;> decide

theorem Level.mem_loosening (level : Level) : level ∈ Level.loosening := by
  cases level <;> decide

theorem Level.rank_lt (level : Level) : level.rank < 6 := by
  cases level <;> decide

/-- The levels before a level are the ones that bind tighter. -/
theorem Level.loosening_split (level : Level) :
    ∃ before after, Level.loosening = before ++ level :: after ∧
      ∀ other : Level, other ∈ before ↔ level.rank < other.rank := by
  cases level with
  | product => exact ⟨[], _, rfl, fun other => by cases other <;> decide⟩
  | sum => exact ⟨[.product], _, rfl, fun other => by cases other <;> decide⟩
  | comparison => exact ⟨[.product, .sum], _, rfl, fun other => by cases other <;> decide⟩
  | equality =>
    exact ⟨[.product, .sum, .comparison], _, rfl, fun other => by cases other <;> decide⟩
  | conjunction =>
    exact ⟨[.product, .sum, .comparison, .equality], _, rfl,
      fun other => by cases other <;> decide⟩
  | disjunction =>
    exact ⟨[.product, .sum, .comparison, .equality, .conjunction], _, rfl,
      fun other => by cases other <;> decide⟩

/-! ## One level -/

theorem merge_cons_same {level : Level} {op : BinaryOp} (h : op.level = level)
    (first next : Expr) (links : List (BinaryOp × Expr)) :
    merge level first ((op, next) :: links) = merge level (first.combine op next) links := by
  rw [merge, if_pos h]

theorem merge_cons_other {level : Level} {op : BinaryOp} (h : op.level ≠ level)
    (first next : Expr) (links : List (BinaryOp × Expr)) :
    merge level first ((op, next) :: links) =
      (first, (op, (merge level next links).1) :: (merge level next links).2) := by
  rw [merge, if_neg h]

/-- The operators of the level are gone, and the others stay in order. -/
theorem merge_operators (level : Level) (first : Expr) (links : List (BinaryOp × Expr)) :
    (merge level first links).2.map Prod.fst =
      (links.map Prod.fst).filter (·.level ≠ level) := by
  induction links generalizing first with
  | nil => rfl
  | cons link links ih =>
    obtain ⟨op, next⟩ := link
    by_cases h : op.level = level
    · rw [merge_cons_same h, ih]
      simp [h]
    · rw [merge_cons_other h, List.map_cons, ih]
      simp [h]

/-- An operator of another level splits the work in two. -/
theorem merge_append_other {level : Level} {op : BinaryOp} (h : op.level ≠ level)
    (first next : Expr) (before after : List (BinaryOp × Expr)) :
    merge level first (before ++ (op, next) :: after) =
      ((merge level first before).1,
        (merge level first before).2 ++
          (op, (merge level next after).1) :: (merge level next after).2) := by
  induction before generalizing first with
  | nil => exact merge_cons_other h first next after
  | cons link before ih =>
    obtain ⟨op', next'⟩ := link
    rw [List.cons_append]
    by_cases h' : op'.level = level
    · rw [merge_cons_same h', merge_cons_same h', ih]
    · rw [merge_cons_other h', merge_cons_other h', ih]
      simp

/-- In a chain of one level the last operator is applied last. -/
theorem merge_append_same {level : Level} {op : BinaryOp} (h : op.level = level)
    (first next : Expr) (links : List (BinaryOp × Expr))
    (hlinks : ∀ link ∈ links, link.1.level = level) :
    merge level first (links ++ [(op, next)]) =
      ((merge level first links).1.combine op next, []) := by
  induction links generalizing first with
  | nil => exact merge_cons_same h first next []
  | cons link links ih =>
    obtain ⟨op', next'⟩ := link
    have h' : op'.level = level := hlinks (op', next') (by simp)
    rw [List.cons_append, merge_cons_same h', merge_cons_same h']
    exact ih _ fun link hlink => hlinks link (by simp [hlink])

/-! ## Several levels -/

/-- Groups the operators of several levels, in the order of the list. -/
def mergeAll (levels : List Level) (flat : Flat) : Flat :=
  levels.foldl (fun flat level => merge level flat.1 flat.2) flat

theorem assemble_eq (flat : Flat) : assemble flat = (mergeAll Level.loosening flat).1 := rfl

theorem mergeAll_append_levels (first second : List Level) (flat : Flat) :
    mergeAll (first ++ second) flat = mergeAll second (mergeAll first flat) :=
  List.foldl_append

theorem mergeAll_cons (level : Level) (levels : List Level) (flat : Flat) :
    mergeAll (level :: levels) flat = mergeAll levels (merge level flat.1 flat.2) := rfl

/-- Without operators there is nothing to group. -/
theorem mergeAll_of_no_links (levels : List Level) {flat : Flat} (h : flat.2 = []) :
    mergeAll levels flat = flat := by
  obtain ⟨e, links⟩ := flat
  subst h
  induction levels with
  | nil => rfl
  | cons level levels ih =>
    rw [mergeAll_cons]
    exact ih

theorem mergeAll_operators (levels : List Level) (flat : Flat) :
    (mergeAll levels flat).2.map Prod.fst =
      (flat.2.map Prod.fst).filter (·.level ∉ levels) := by
  induction levels generalizing flat with
  | nil => exact (List.filter_eq_self.2 (by simp)).symm
  | cons level levels ih =>
    rw [mergeAll_cons, ih, merge_operators, List.filter_filter]
    simp [Bool.and_comm]

/-- A chain is reduced to one operand when every operator has its level listed. -/
theorem mergeAll_links_eq_nil {levels : List Level} {flat : Flat}
    (h : ∀ link ∈ flat.2, link.1.level ∈ levels) : (mergeAll levels flat).2 = [] := by
  have hoperators := mergeAll_operators levels flat
  rw [List.filter_eq_nil_iff.2] at hoperators
  · exact List.map_eq_nil_iff.1 hoperators
  · intro op hop
    obtain ⟨link, hlink, rfl⟩ := List.mem_map.1 hop
    simpa using h link hlink

theorem mergeAll_append_other {levels : List Level} {op : BinaryOp} (h : op.level ∉ levels)
    (first next : Expr) (before after : List (BinaryOp × Expr)) :
    mergeAll levels (first, before ++ (op, next) :: after) =
      ((mergeAll levels (first, before)).1,
        (mergeAll levels (first, before)).2 ++
          (op, (mergeAll levels (next, after)).1) :: (mergeAll levels (next, after)).2) := by
  induction levels generalizing first next before after with
  | nil => rfl
  | cons level levels ih =>
    rw [List.mem_cons, not_or] at h
    simp only [mergeAll_cons, merge_append_other h.1]
    exact ih h.2 _ _ _ _

/-- A chain splits at an operator that binds no tighter than the ones before it and
less tightly than the ones after it. -/
theorem assemble_append {op : BinaryOp} (first next : Expr)
    (before after : List (BinaryOp × Expr))
    (hbefore : ∀ link ∈ before, op.level.rank ≤ link.1.level.rank)
    (hafter : ∀ link ∈ after, op.level.rank < link.1.level.rank) :
    assemble (first, before ++ (op, next) :: after) =
      (assemble (first, before)).combine op (assemble (next, after)) := by
  obtain ⟨tight, loose, hsplit, htight⟩ := op.level.loosening_split
  have hop : op.level ∉ tight := by
    rw [htight]
    omega
  -- The tight levels leave one operand to the right, and one level to the left.
  have hright : (mergeAll tight (next, after)).2 = [] :=
    mergeAll_links_eq_nil fun link hlink => (htight _).2 (hafter link hlink)
  have hleft : ∀ link ∈ (mergeAll tight (first, before)).2, link.1.level = op.level := by
    intro link hlink
    have hmem : link.1 ∈ (mergeAll tight (first, before)).2.map Prod.fst :=
      List.mem_map_of_mem hlink
    rw [mergeAll_operators, List.mem_filter] at hmem
    obtain ⟨hmem, hnot⟩ := hmem
    obtain ⟨origin, horigin, heq⟩ := List.mem_map.1 hmem
    have hge := hbefore origin horigin
    rw [heq] at hge
    have hnot : ¬link.1.level ∈ tight := by simpa using hnot
    rw [htight] at hnot
    exact Level.rank_injective (by omega)
  have hreduced : (merge op.level (mergeAll tight (first, before)).1
      (mergeAll tight (first, before)).2).2 = [] :=
    @mergeAll_links_eq_nil [op.level] _ fun link hlink => by simp [hleft link hlink]
  have hassembleRight : assemble (next, after) = (mergeAll tight (next, after)).1 := by
    rw [assemble_eq, hsplit, mergeAll_append_levels, mergeAll_of_no_links _ hright]
  have hassembleLeft : assemble (first, before) =
      (merge op.level (mergeAll tight (first, before)).1
        (mergeAll tight (first, before)).2).1 := by
    rw [assemble_eq, hsplit, mergeAll_append_levels, mergeAll_cons,
      mergeAll_of_no_links _ hreduced]
  rw [hassembleLeft, hassembleRight, assemble_eq, hsplit, mergeAll_append_levels,
    mergeAll_append_other hop, mergeAll_cons, hright, merge_append_same rfl _ _ _ hleft,
    mergeAll_of_no_links _ rfl]

/-! ## Chains that the grammar reads -/

/-- Operators, each with an operand of a rank after it. -/
inductive ReadsLinks (far : List Located → List Located → Prop) (rank : Nat) :
    List Located → List Located → List (BinaryOp × Expr) → Prop where
  | nil {rest : List Located} : ReadsLinks far rank [] rest []
  | cons {o : Located} {ts us rest : List Located} {op : BinaryOp} {e : Expr}
      {links : List (BinaryOp × Expr)} :
      o.token = op.token → Reads far rank ts (us ++ rest) e →
      ReadsLinks far rank us rest links →
      ReadsLinks far rank (o :: (ts ++ us)) rest ((op, e) :: links)

/-- A chain of operands of a rank. -/
def ReadsFlat (far : List Located → List Located → Prop) (rank : Nat)
    (ts rest : List Located) (flat : Flat) : Prop :=
  ∃ head tail, head ++ tail = ts ∧ Reads far rank head (tail ++ rest) flat.1 ∧
    ReadsLinks far rank tail rest flat.2

section Chains

variable {far : List Located → List Located → Prop}

theorem ReadsFlat.single {rank : Nat} {ts rest : List Located} {e : Expr}
    (h : Reads far rank ts rest e) : ReadsFlat far rank ts rest (e, []) :=
  ⟨ts, [], by simp, h, .nil⟩

theorem ReadsFlat.cons {rank : Nat} {o : Located} {ts us rest : List Located} {op : BinaryOp}
    {e : Expr} {flat : Flat} (h : Reads far rank ts (o :: (us ++ rest)) e)
    (ho : o.token = op.token) (hflat : ReadsFlat far rank us rest flat) :
    ReadsFlat far rank (ts ++ o :: us) rest (e, (op, flat.1) :: flat.2) := by
  obtain ⟨head, tail, rfl, hhead, htail⟩ := hflat
  exact ⟨ts, o :: (head ++ tail), rfl, h, .cons ho hhead htail⟩

/-- Grouping one level keeps a chain readable, with operands one rank lower. -/
theorem ReadsLinks.merge {level : Level} {us rest : List Located}
    {links : List (BinaryOp × Expr)} (hlinks : ReadsLinks far (level.rank + 1) us rest links) :
    ∀ {ts : List Located} {first : Expr}, Reads far level.rank ts (us ++ rest) first →
      ReadsFlat far level.rank (ts ++ us) rest (merge level first links) := by
  induction hlinks with
  | nil =>
    intro ts first hfirst
    exact ⟨ts, [], rfl, hfirst, .nil⟩
  | @cons o ts' us rest op e links ho he _ ih =>
    intro ts first hfirst
    by_cases hlevel : op.level = level
    · subst hlevel
      rw [merge_cons_same rfl]
      have hbinary : Reads far op.level.rank (ts ++ o :: ts') (us ++ rest)
          (first.combine op e) := by
        refine .binary ?_ ho he
        simpa using hfirst
      simpa using ih hbinary
    · rw [merge_cons_other hlevel]
      refine ReadsFlat.cons ?_ ho (ih he.tighter)
      simpa using hfirst

theorem ReadsFlat.merge (level : Level) {ts rest : List Located} {flat : Flat}
    (h : ReadsFlat far (level.rank + 1) ts rest flat) :
    ReadsFlat far level.rank ts rest (merge level flat.1 flat.2) := by
  obtain ⟨head, tail, rfl, hhead, htail⟩ := h
  exact htail.merge hhead.tighter

/-- The tokens of a chain are read as the tree that is assembled from it. -/
theorem ReadsFlat.assemble {ts rest : List Located} {flat : Flat}
    (h : ReadsFlat far 6 ts rest flat) : Reads far 0 ts rest (assemble flat) := by
  have hproduct := ReadsFlat.merge .product h
  have hsum := ReadsFlat.merge .sum hproduct
  have hcomparison := ReadsFlat.merge .comparison hsum
  have hequality := ReadsFlat.merge .equality hcomparison
  have hconjunction := ReadsFlat.merge .conjunction hequality
  obtain ⟨head, tail, rfl, hhead, htail⟩ := ReadsFlat.merge .disjunction hconjunction
  have hlinks : (mergeAll Level.loosening flat).2 = [] :=
    mergeAll_links_eq_nil fun link _ => link.1.level.mem_loosening
  change ReadsLinks far 0 tail rest (mergeAll Level.loosening flat).2 at htail
  rw [hlinks] at htail
  cases htail
  rw [List.append_nil]
  exact hhead

end Chains

end TagLang
