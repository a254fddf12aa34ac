import TagLang.Nesting

/-!
# The running count of the nesting

The nesting of tokens is counted from left to right.  `Nesting.run` is the count after some
tokens.

* `Token.role` is what a token does to the count, and `Nesting.step_eq` says it by role.
* `Nesting.Within` says that the depth does not pass the limit in any part of the tokens from
  their start on.  `Nesting.exceeding?_eq_none_iff` and `Nesting.exceeding?_eq_some_iff` say with it
  whether the limit is passed and where.
-/

namespace TagLang

/-! ## One token and many -/

/-- The part that a token plays in the nesting. -/
inductive Role where
  | opening
  | closing
  | branching
  | ending
  | plain
  deriving DecidableEq, Repr

def Token.role : Token → Role
  | leftParen | leftBrace => .opening
  | rightParen | rightBrace => .closing
  | kwIf => .branching
  | semicolon | comma => .ending
  | _ => .plain

namespace Nesting

theorem step_eq (n : Nesting) (t : Token) :
    n.step t =
      match t.role with
      | .opening => ⟨n.depth + 1, 0, n.ifs :: n.outer⟩
      | .closing =>
        match n.outer with
        | [] => n
        | ifs :: outer => ⟨n.depth - (1 + n.ifs), ifs, outer⟩
      | .branching => ⟨n.depth + 1, n.ifs + 1, n.outer⟩
      | .ending => ⟨n.depth - n.ifs, 0, n.outer⟩
      | .plain => n := by
  cases t <;> rfl

/-- The count after some tokens. -/
def run (n : Nesting) (ts : List Token) : Nesting :=
  ts.foldl step n

@[simp]
theorem run_cons (n : Nesting) (t : Token) (ts : List Token) :
    n.run (t :: ts) = (n.step t).run ts := rfl

theorem run_append (n : Nesting) (ts us : List Token) : n.run (ts ++ us) = (n.run ts).run us :=
  List.foldl_append

/-- The count after some tokens with places. -/
def after (n : Nesting) (ts : List Located) : Nesting :=
  n.run (ts.map (·.token))

@[simp]
theorem after_nil (n : Nesting) : n.after [] = n := rfl

@[simp]
theorem after_cons (n : Nesting) (t : Located) (ts : List Located) :
    n.after (t :: ts) = (n.step t.token).after ts := rfl

@[simp]
theorem after_append (n : Nesting) (ts us : List Located) :
    n.after (ts ++ us) = (n.after ts).after us := by
  rw [after, List.map_append, run_append]
  rfl

/-! ## Where the count passes the limit -/

/-- The depth does not pass the limit while the tokens are counted. -/
def Within (limit : Nat) (n : Nesting) (ts : List Located) : Prop :=
  ∀ p, p <+: ts → (n.after p).depth ≤ limit

variable {limit : Nat} {n : Nesting}

theorem within_nil : Within limit n [] ↔ n.depth ≤ limit := by
  simp [Within]

theorem within_cons {t : Located} {ts : List Located} :
    Within limit n (t :: ts) ↔ n.depth ≤ limit ∧ Within limit (n.step t.token) ts := by
  constructor
  · intro h
    refine ⟨h [] List.nil_prefix, fun p hp => ?_⟩
    exact h (t :: p) ((List.prefix_cons_inj t).2 hp)
  · rintro ⟨hn, h⟩ p hp
    rcases List.prefix_cons_iff.1 hp with rfl | ⟨q, rfl, hq⟩
    · exact hn
    · exact h q hq

theorem Within.depth_le {ts : List Located} (h : Within limit n ts) : n.depth ≤ limit :=
  h [] List.nil_prefix

theorem within_append {ts us : List Located} :
    Within limit n (ts ++ us) ↔ Within limit n ts ∧ Within limit (n.after ts) us := by
  induction ts generalizing n with
  | nil => simpa [within_nil] using Within.depth_le
  | cons t ts ih => rw [List.cons_append, within_cons, within_cons, ih, and_assoc, after_cons]

theorem exceedingFrom?_eq_none_iff (hn : n.depth ≤ limit) {ts : List Located} :
    exceedingFrom? limit n ts = none ↔ Within limit n ts := by
  induction ts generalizing n with
  | nil => simpa [exceedingFrom?, within_nil] using hn
  | cons t rest ih =>
    rw [exceedingFrom?, within_cons]
    split
    · rename_i ht
      refine ⟨nofun, fun h => ?_⟩
      have hdepth := h.2.depth_le
      omega
    · rename_i ht
      rw [ih (by omega)]
      exact ⟨fun h => ⟨hn, h⟩, fun h => h.2⟩

/-- The limit is passed at the token behind the longest part in which it is not. -/
theorem exceedingFrom?_eq_some_iff (hn : n.depth ≤ limit) {ts : List Located} {span : Span} :
    exceedingFrom? limit n ts = some span ↔
      ∃ before t after, ts = before ++ t :: after ∧ t.span = span ∧ Within limit n before ∧
        limit < (n.after (before ++ [t])).depth := by
  induction ts generalizing n with
  | nil => simp [exceedingFrom?]
  | cons t rest ih =>
    rw [exceedingFrom?]
    split
    · rename_i ht
      constructor
      · intro h
        exact ⟨[], t, rest, rfl, Option.some.inj h, within_nil.2 hn, ht⟩
      · rintro ⟨before, u, after, hsplit, hspan, hwithin, -⟩
        cases before with
        | nil =>
          obtain ⟨rfl, -⟩ := List.cons.inj hsplit
          rw [hspan]
        | cons first before =>
          obtain ⟨rfl, -⟩ := List.cons.inj hsplit
          have hdepth := (within_cons.1 hwithin).2.depth_le
          omega
    · rename_i ht
      rw [ih (by omega)]
      constructor
      · rintro ⟨before, u, after, rfl, hspan, hwithin, hexceeds⟩
        exact ⟨t :: before, u, after, rfl, hspan, within_cons.2 ⟨hn, hwithin⟩, hexceeds⟩
      · rintro ⟨before, u, after, hsplit, hspan, hwithin, hexceeds⟩
        cases before with
        | nil =>
          obtain ⟨rfl, -⟩ := List.cons.inj hsplit
          exact absurd hexceeds ht
        | cons first before =>
          obtain ⟨rfl, rfl⟩ := List.cons.inj hsplit
          exact ⟨before, u, after, rfl, hspan, (within_cons.1 hwithin).2, hexceeds⟩

theorem exceeding?_eq_none_iff {ts : List Located} :
    exceeding? limit ts = none ↔ Within limit start ts :=
  exceedingFrom?_eq_none_iff (Nat.zero_le limit)

theorem exceeding?_eq_some_iff {ts : List Located} {span : Span} :
    exceeding? limit ts = some span ↔
      ∃ before t after, ts = before ++ t :: after ∧ t.span = span ∧ Within limit start before ∧
        limit < (start.after (before ++ [t])).depth :=
  exceedingFrom?_eq_some_iff (Nat.zero_le limit)

end Nesting

end TagLang
