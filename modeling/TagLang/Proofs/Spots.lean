import Mathlib.Data.List.Nodup
import TagLang.Proofs.Undefined

/-!
# Spots of an expression

A spot is what a finding on an expression can belong to: a node, known by the turns that lead
to it, or one argument of a call.  Two nodes may look the same and have the same span, but
they are not the same spot.

* `Expr.nodes` and `Expr.allArguments` list the nodes and the arguments, and `Expr.at?` follows
  some turns to a node.
* `Expr.spots` lists all spots, each once: `Expr.nodup_spots`.  There are as many as nodes and
  arguments, `Expr.length_spots`.

All of these have an equation in terms of `Expr.parts`, so that `Expr.induction_parts` does
for every kind of node at once.
-/

namespace TagLang

/-! ## Nodes and arguments -/

mutual

/-- The nodes of an expression, itself first. -/
def Expr.nodes : Expr → List Expr
  | .literal value span => [.literal value span]
  | .var name span => [.var name span]
  | .call callee arguments span => .call callee arguments span :: nodesOfEach arguments
  | .unary op operand span => .unary op operand span :: operand.nodes
  | .binary op left right span => .binary op left right span :: (left.nodes ++ right.nodes)
  | .conditional condition consequent alternative span =>
    .conditional condition consequent alternative span ::
      (condition.nodes ++ (consequent.nodes ++ alternative.nodes))

/-- The nodes of several expressions. -/
def nodesOfEach : List Expr → List Expr
  | [] => []
  | e :: rest => e.nodes ++ nodesOfEach rest

end

/-- The arguments of a call. -/
def Expr.arguments : Expr → List Expr
  | .call _ arguments _ => arguments
  | _ => []

/-- The arguments of all calls in an expression. -/
def Expr.allArguments (e : Expr) : List Expr :=
  e.nodes.flatMap Expr.arguments

theorem nodesOfEach_eq (es : List Expr) : nodesOfEach es = es.flatMap Expr.nodes := by
  induction es with
  | nil => rfl
  | cons e rest ih => rw [nodesOfEach, ih, List.flatMap_cons]

theorem Expr.nodes_eq (e : Expr) : e.nodes = e :: e.parts.flatMap Expr.nodes := by
  cases e <;> simp [Expr.nodes, Expr.parts, nodesOfEach_eq]

/-- The node to which some turns lead.  Each turn is the number of a part. -/
def Expr.at? : List Nat → Expr → Option Expr
  | [], e => some e
  | turn :: path, e => e.parts[turn]?.bind (at? path)

theorem Expr.mem_atLevel_of_at? {node : Expr} {path : List Nat} :
    ∀ {e : Expr}, e.at? path = some node → node ∈ e.atLevel path.length := by
  induction path with
  | nil =>
    intro e h
    obtain rfl := Option.some.inj h
    exact List.mem_singleton_self e
  | cons turn path ih =>
    intro e h
    obtain ⟨part, hpart, hnode⟩ := Option.bind_eq_some_iff.1 h
    exact List.mem_flatMap.2 ⟨part, List.mem_of_getElem? hpart, ih hnode⟩

/-! ## Spots -/

/-- The node at the end of a path, or one of its arguments. -/
structure Spot where
  path : List Nat
  argument : Option Nat
  deriving DecidableEq, Repr

/-- The root of an expression. -/
def Spot.root : Spot :=
  ⟨[], none⟩

/-- A spot of a part, seen from the whole. -/
def Spot.below (turn : Nat) (spot : Spot) : Spot :=
  { spot with path := turn :: spot.path }

theorem Spot.below_injective (turn : Nat) : Function.Injective (Spot.below turn) := by
  intro spot spot' h
  cases spot
  cases spot'
  simpa [Spot.below] using h

/-- The spots of the arguments of a call, from number `index` on. -/
def argumentSpots (index : Nat) : List Expr → List Spot
  | [] => []
  | _ :: rest => ⟨[], some index⟩ :: argumentSpots (index + 1) rest

mutual

/-- The spots of an expression: its nodes, and the arguments of its calls. -/
def Expr.spots : Expr → List Spot
  | .literal _ _ => [.root]
  | .var _ _ => [.root]
  | .call _ arguments _ => .root :: (argumentSpots 0 arguments ++ spotsOfParts 0 arguments)
  | .unary _ operand _ => .root :: operand.spots.map (.below 0)
  | .binary _ left right _ => .root :: (left.spots.map (.below 0) ++ right.spots.map (.below 1))
  | .conditional condition consequent alternative _ =>
    .root :: (condition.spots.map (.below 0) ++
      (consequent.spots.map (.below 1) ++ alternative.spots.map (.below 2)))

/-- The spots in parts that are numbered from `index` on. -/
def spotsOfParts (index : Nat) : List Expr → List Spot
  | [] => []
  | part :: rest => part.spots.map (.below index) ++ spotsOfParts (index + 1) rest

end

theorem Expr.spots_eq (e : Expr) :
    e.spots = .root :: (argumentSpots 0 e.arguments ++ spotsOfParts 0 e.parts) := by
  cases e <;> simp [Expr.spots, Expr.parts, Expr.arguments, argumentSpots, spotsOfParts]

theorem of_mem_argumentSpots {spot : Spot} {arguments : List Expr} :
    ∀ {index : Nat}, spot ∈ argumentSpots index arguments →
      ∃ number, index ≤ number ∧ spot = ⟨[], some number⟩ := by
  induction arguments with
  | nil =>
    intro index h
    contradiction
  | cons argument rest ih =>
    intro index h
    rcases List.mem_cons.1 h with h | h
    · exact ⟨index, Nat.le_refl _, h⟩
    · obtain ⟨number, hnumber, hspot⟩ := ih h
      exact ⟨number, by omega, hspot⟩

theorem of_mem_spotsOfParts {spot : Spot} {parts : List Expr} :
    ∀ {index : Nat}, spot ∈ spotsOfParts index parts →
      ∃ turn inner, index ≤ turn ∧ spot = Spot.below turn inner := by
  induction parts with
  | nil =>
    intro index h
    rw [spotsOfParts] at h
    contradiction
  | cons part rest ih =>
    intro index h
    rw [spotsOfParts] at h
    rcases List.mem_append.1 h with h | h
    · obtain ⟨inner, -, hspot⟩ := List.mem_map.1 h
      exact ⟨index, inner, Nat.le_refl _, hspot.symm⟩
    · obtain ⟨turn, inner, hturn, hspot⟩ := ih h
      exact ⟨turn, inner, by omega, hspot⟩

theorem nodup_argumentSpots (arguments : List Expr) :
    ∀ index, (argumentSpots index arguments).Nodup := by
  induction arguments with
  | nil =>
    intro index
    exact List.nodup_nil
  | cons argument rest ih =>
    intro index
    refine List.nodup_cons.2 ⟨fun hmem => ?_, ih (index + 1)⟩
    obtain ⟨number, hnumber, hspot⟩ := of_mem_argumentSpots hmem
    simp only [Spot.mk.injEq, Option.some.injEq, true_and] at hspot
    omega

theorem nodup_spotsOfParts {parts : List Expr} (h : ∀ part ∈ parts, part.spots.Nodup) :
    ∀ index, (spotsOfParts index parts).Nodup := by
  induction parts with
  | nil =>
    intro index
    rw [spotsOfParts]
    exact List.nodup_nil
  | cons part rest ih =>
    intro index
    obtain ⟨hpart, hrest⟩ := List.forall_mem_cons.1 h
    rw [spotsOfParts]
    refine List.Nodup.append (hpart.map (Spot.below_injective index)) (ih hrest (index + 1)) ?_
    intro spot hmem hmem'
    obtain ⟨inner, -, hspot⟩ := List.mem_map.1 hmem
    obtain ⟨turn, inner', hturn, hspot'⟩ := of_mem_spotsOfParts hmem'
    have hpath := congrArg Spot.path (hspot.trans hspot')
    simp only [Spot.below, List.cons.injEq] at hpath
    omega

/-- No spot is listed twice. -/
theorem Expr.nodup_spots (e : Expr) : e.spots.Nodup := by
  induction e using Expr.induction_parts with
  | h e ih =>
    rw [Expr.spots_eq]
    refine List.nodup_cons.2 ⟨fun hmem => ?_, ?_⟩
    · rcases List.mem_append.1 hmem with hmem | hmem
      · obtain ⟨number, -, hspot⟩ := of_mem_argumentSpots hmem
        simp [Spot.root] at hspot
      · obtain ⟨turn, inner, -, hspot⟩ := of_mem_spotsOfParts hmem
        simp [Spot.root, Spot.below] at hspot
    · refine List.Nodup.append (nodup_argumentSpots _ 0) (nodup_spotsOfParts ih 0) ?_
      intro spot hmem hmem'
      obtain ⟨number, -, hspot⟩ := of_mem_argumentSpots hmem
      obtain ⟨turn, inner, -, hspot'⟩ := of_mem_spotsOfParts hmem'
      have hpath := congrArg Spot.path (hspot.symm.trans hspot')
      simp [Spot.below] at hpath

theorem length_argumentSpots (arguments : List Expr) :
    ∀ index, (argumentSpots index arguments).length = arguments.length := by
  induction arguments with
  | nil =>
    intro index
    rfl
  | cons argument rest ih =>
    intro index
    rw [argumentSpots, List.length_cons, List.length_cons, ih]

theorem length_spotsOfParts {parts : List Expr}
    (h : ∀ part ∈ parts, part.spots.length = part.nodes.length + part.allArguments.length) :
    ∀ index, (spotsOfParts index parts).length =
      (parts.flatMap Expr.nodes).length +
        ((parts.flatMap Expr.nodes).flatMap Expr.arguments).length := by
  induction parts with
  | nil =>
    intro index
    rw [spotsOfParts]
    rfl
  | cons part rest ih =>
    intro index
    obtain ⟨hpart, hrest⟩ := List.forall_mem_cons.1 h
    rw [Expr.allArguments] at hpart
    rw [spotsOfParts, List.length_append, List.length_map, hpart, ih hrest (index + 1),
      List.flatMap_cons, List.flatMap_append, List.length_append, List.length_append]
    omega

/-- There are as many spots as nodes and arguments. -/
theorem Expr.length_spots (e : Expr) :
    e.spots.length = e.nodes.length + e.allArguments.length := by
  induction e using Expr.induction_parts with
  | h e ih =>
    rw [Expr.spots_eq, List.length_cons, List.length_append, length_argumentSpots,
      length_spotsOfParts ih, Expr.allArguments, Expr.nodes_eq, List.length_cons,
      List.flatMap_cons, List.length_append]
    omega

end TagLang
