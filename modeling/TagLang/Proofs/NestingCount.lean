import Mathlib.Algebra.BigOperators.Group.Finset.Piecewise
import Mathlib.Algebra.GroupWithZero.Nat
import TagLang.Proofs.Nesting
import TagLang.Session

/-!
# What the nesting count counts

The nesting of tokens is counted in passing, with one number for each open level.  This module
says what the count is after some tokens, in terms of these tokens alone.

* `Token.level` is the number of brackets that are open after some tokens, and `Token.Pending`
  says which `if`s count.  `Token.weight` adds them up.
* `Token.pendingAt` counts the `if`s of one level.  What one more token does to it is
  `Token.pendingAt_concat`, and `Nesting.shows_run` is the invariant of the count that follows.
* `Tally` is the count with subtractions that can fail.  `Nesting.Balanced.check?` says that they
  do not.
* `nesting_check_exact` is the result for the check of a list of tokens.
-/

namespace TagLang

/-! ## Levels -/

namespace Token

/-- The number of open brackets, when one more token is read.  A bracket that closes nothing is
ignored. -/
def levelStep (level : Nat) (t : Token) : Nat :=
  match t.role with
  | .opening => level + 1
  | .closing => level - 1
  | _ => level

/-- The number of brackets that are open after some tokens. -/
def level (ts : List Token) : Nat :=
  ts.foldl levelStep 0

/-- The `if` behind the first `i` tokens counts after all of them: its level has not been closed,
and no semicolon or comma came on that level. -/
structure Pending (ts : List Token) (i : Nat) : Prop where
  isIf : ts[i]? = some .kwIf
  stillOpen : ∀ k ≤ ts.length, i < k → level (ts.take i) ≤ level (ts.take k)
  notEnded : ∀ k < ts.length, i < k → ts[k]?.map role = some .ending →
    level (ts.take k) ≠ level (ts.take i)

instance (ts : List Token) (i : Nat) : Decidable (Pending ts i) :=
  decidable_of_iff
    (ts[i]? = some .kwIf ∧ (∀ k ≤ ts.length, i < k → level (ts.take i) ≤ level (ts.take k)) ∧
      ∀ k < ts.length, i < k → ts[k]?.map role = some .ending →
        level (ts.take k) ≠ level (ts.take i))
    ⟨fun h => ⟨h.1, h.2.1, h.2.2⟩, fun h => ⟨h.isIf, h.stillOpen, h.notEnded⟩⟩

/-- The `if`s that count after some tokens. -/
def pending (ts : List Token) : Finset Nat :=
  (Finset.range ts.length).filter (Pending ts)

/-- The open brackets and the `if`s that count. -/
def weight (ts : List Token) : Nat :=
  level ts + (pending ts).card

/-- The number of `if`s that count on one level. -/
def pendingAt (ts : List Token) (l : Nat) : Nat :=
  ((pending ts).filter fun i => level (ts.take i) = l).card

theorem level_concat (ts : List Token) (t : Token) :
    level (ts ++ [t]) = levelStep (level ts) t := by
  rw [level, List.foldl_append]
  rfl

theorem role_eq_branching_iff {t : Token} : t.role = .branching ↔ t = .kwIf := by
  cases t <;> simp [role]

theorem pending_concat_of_lt {ts : List Token} {t : Token} {i : Nat} (hi : i < ts.length) :
    Pending (ts ++ [t]) i ↔ Pending ts i ∧ level (ts.take i) ≤ level (ts ++ [t]) ∧
      (t.role = .ending → level ts ≠ level (ts.take i)) := by
  have htake (k : Nat) (hk : k ≤ ts.length) : (ts ++ [t]).take k = ts.take k :=
    List.take_append_of_le_length hk
  have hget (k : Nat) (hk : k < ts.length) : (ts ++ [t])[k]? = ts[k]? :=
    List.getElem?_append_left hk
  have hlast : (ts ++ [t]).take (ts ++ [t]).length = ts ++ [t] := List.take_length
  have hlength : (ts ++ [t]).length = ts.length + 1 := List.length_append
  constructor
  · rintro ⟨hif, hopen, hended⟩
    rw [hget i hi] at hif
    refine ⟨⟨hif, fun k hk hik => ?_, fun k hk hik hrole => ?_⟩, ?_, fun hrole => ?_⟩
    · have := hopen k (by omega) hik
      rwa [htake i hi.le, htake k hk] at this
    · have := hended k (by omega) hik (by rwa [hget k hk])
      rwa [htake i hi.le, htake k hk.le] at this
    · have := hopen (ts ++ [t]).length (Nat.le_refl _) (by omega)
      rwa [hlast, htake i hi.le] at this
    · have := hended ts.length (by omega) hi (by simpa using hrole)
      rwa [htake i hi.le, List.take_left] at this
  · rintro ⟨⟨hif, hopen, hended⟩, hlevel, hrole⟩
    refine ⟨by rwa [hget i hi], fun k hk hik => ?_, fun k hk hik hend => ?_⟩
    · rw [htake i hi.le]
      by_cases hkl : k ≤ ts.length
      · rw [htake k hkl]
        exact hopen k hkl hik
      · obtain rfl : k = (ts ++ [t]).length := by omega
        rwa [hlast]
    · rw [htake i hi.le]
      by_cases hkl : k < ts.length
      · rw [htake k hkl.le]
        rw [hget k hkl] at hend
        exact hended k hkl hik hend
      · obtain rfl : k = ts.length := by omega
        rw [List.take_left]
        exact hrole (by simpa using hend)

theorem pending_concat_length {ts : List Token} {t : Token} :
    Pending (ts ++ [t]) ts.length ↔ t = .kwIf := by
  constructor
  · intro h
    simpa using h.isIf
  · rintro rfl
    refine ⟨by simp, fun k hk hik => ?_, fun k hk hik => ?_⟩
    · have hlength : (ts ++ [kwIf]).length = ts.length + 1 := List.length_append
      obtain rfl : k = (ts ++ [kwIf]).length := by omega
      rw [List.take_length, List.take_left, level_concat]
      exact Nat.le_refl _
    · have hlength : (ts ++ [kwIf]).length = ts.length + 1 := List.length_append
      omega

/-- What one more token does to the `if`s of a level: it may close the level, end what is pending
on it, or be an `if` itself. -/
theorem pendingAt_concat (ts : List Token) (t : Token) (l : Nat) :
    pendingAt (ts ++ [t]) l =
      (if l ≤ level (ts ++ [t]) ∧ (t.role = .ending → level ts ≠ l) then pendingAt ts l else 0) +
        if t = .kwIf ∧ level ts = l then 1 else 0 := by
  have hbefore : ∀ i ∈ Finset.range ts.length,
      (if Pending (ts ++ [t]) i ∧ level ((ts ++ [t]).take i) = l then 1 else 0) =
        if l ≤ level (ts ++ [t]) ∧ (t.role = .ending → level ts ≠ l) then
          if Pending ts i ∧ level (ts.take i) = l then 1 else 0
        else 0 := by
    intro i hi
    rw [Finset.mem_range] at hi
    rw [List.take_append_of_le_length hi.le]
    by_cases hl : level (ts.take i) = l
    · subst hl
      simp only [pending_concat_of_lt hi, and_true]
      split_ifs <;> simp_all
    · simp [hl]
  simp only [pendingAt, pending, Finset.filter_filter, Finset.card_filter]
  rw [List.length_append, List.length_singleton, Finset.sum_range_succ,
    Finset.sum_congr rfl hbefore]
  simp only [pending_concat_length, List.take_left]
  split_ifs <;> simp

/-- No `if` counts on a level that is not open. -/
theorem pendingAt_of_lt {ts : List Token} {l : Nat} (h : level ts < l) : pendingAt ts l = 0 := by
  rw [pendingAt, Finset.card_eq_zero, Finset.filter_eq_empty_iff]
  intro i hi hl
  obtain ⟨hrange, hpending⟩ := Finset.mem_filter.1 hi
  have hle := hpending.stillOpen ts.length (Nat.le_refl _) (Finset.mem_range.1 hrange)
  rw [List.take_length] at hle
  omega

/-- The numbers of `if`s that count on the levels below `l`, the highest level first. -/
def pendingBelow (ts : List Token) : Nat → List Nat
  | 0 => []
  | l + 1 => pendingAt ts l :: pendingBelow ts l

theorem length_pendingBelow (ts : List Token) (l : Nat) : (pendingBelow ts l).length = l := by
  induction l with
  | zero => rfl
  | succ l ih => rw [pendingBelow, List.length_cons, ih]

theorem sum_pendingBelow (ts : List Token) (l : Nat) :
    (pendingBelow ts l).sum = ∑ k ∈ Finset.range l, pendingAt ts k := by
  induction l with
  | zero => rfl
  | succ l ih => rw [pendingBelow, List.sum_cons, ih, Finset.sum_range_succ, Nat.add_comm]

theorem pendingBelow_congr {ts us : List Token} {l : Nat}
    (h : ∀ k < l, pendingAt us k = pendingAt ts k) : pendingBelow us l = pendingBelow ts l := by
  induction l with
  | zero => rfl
  | succ l ih =>
    rw [pendingBelow, pendingBelow, h l (Nat.lt_succ_self l), ih fun k hk => h k (by omega)]

/-- Nothing changes below the present level, as long as the levels stay open. -/
theorem pendingBelow_concat {ts : List Token} {t : Token} {l : Nat} (hl : l ≤ level ts)
    (hopen : l ≤ level (ts ++ [t]) + 1) : pendingBelow (ts ++ [t]) l = pendingBelow ts l := by
  refine pendingBelow_congr fun k hk => ?_
  have hother : level ts ≠ k := by omega
  rw [pendingAt_concat, if_pos ⟨by omega, fun _ => hother⟩, if_neg fun h => hother h.2,
    Nat.add_zero]

/-- What a token does on the present level, if it does not close it. -/
theorem pendingAt_concat_level {ts : List Token} {t : Token} (h : level ts ≤ level (ts ++ [t])) :
    pendingAt (ts ++ [t]) (level ts) =
      match t.role with
      | .branching => pendingAt ts (level ts) + 1
      | .ending => 0
      | _ => pendingAt ts (level ts) := by
  have hif : t = .kwIf ↔ t.role = .branching := role_eq_branching_iff.symm
  rw [pendingAt_concat]
  simp only [h, hif, true_and, ne_eq, not_true_eq_false, imp_false, and_true]
  cases t.role <;> simp

/-- The `if`s that count are those of the levels up to the present one. -/
theorem card_pending (ts : List Token) :
    (pending ts).card = pendingAt ts (level ts) + (pendingBelow ts (level ts)).sum := by
  have hmaps : Set.MapsTo (fun i => level (ts.take i)) (pending ts)
      (Finset.range (level ts + 1) : Finset Nat) := by
    intro i hi
    obtain ⟨hrange, hpending⟩ := Finset.mem_filter.1 hi
    have hle := hpending.stillOpen ts.length (Nat.le_refl _) (Finset.mem_range.1 hrange)
    rw [List.take_length] at hle
    exact Finset.mem_coe.2 (Finset.mem_range.2 (Nat.lt_succ_of_le hle))
  rw [Finset.card_eq_sum_card_fiberwise hmaps, Finset.sum_range_succ, sum_pendingBelow,
    Nat.add_comm]
  rfl

end Token

/-! ## The levels of the count -/

namespace Nesting

/-- The depth is the number of levels around the innermost one, and the `if`s of all levels. -/
def Balanced (n : Nesting) : Prop :=
  n.depth = n.outer.length + (n.ifs + n.outer.sum)

theorem Balanced.step {n : Nesting} (h : n.Balanced) (t : Token) : (n.step t).Balanced := by
  unfold Balanced at h
  rw [step_eq]
  cases t.role with
  | opening =>
    simp only [Balanced, List.length_cons, List.sum_cons]
    omega
  | closing =>
    cases houter : n.outer with
    | nil => exact h
    | cons ifs outer =>
      simp only [houter, List.length_cons, List.sum_cons] at h
      simp only [Balanced]
      omega
  | branching | ending =>
    simp only [Balanced]
    omega
  | plain => exact h

theorem Balanced.run {n : Nesting} (h : n.Balanced) (ts : List Token) : (n.run ts).Balanced := by
  induction ts generalizing n with
  | nil => exact h
  | cons t ts ih => exact ih (h.step t)

theorem balanced_start : start.Balanced := rfl

/-- Each level of the count holds the number of `if`s that count on it after the tokens. -/
structure Shows (n : Nesting) (ts : List Token) : Prop where
  ifs : n.ifs = Token.pendingAt ts (Token.level ts)
  outer : n.outer = Token.pendingBelow ts (Token.level ts)

section Shows

variable {n : Nesting} {ts : List Token} {t : Token}

/-- A token that opens and closes nothing changes the innermost level only. -/
theorem Shows.stay (h : n.Shows ts) (hlevel : Token.level (ts ++ [t]) = Token.level ts)
    (depth : Nat) {ifs : Nat}
    (hifs : ifs = match t.role with
      | .branching => n.ifs + 1
      | .ending => 0
      | _ => n.ifs) :
    Shows ⟨depth, ifs, n.outer⟩ (ts ++ [t]) where
  ifs := by
    rw [hifs, hlevel, Token.pendingAt_concat_level (Nat.le_of_eq hlevel.symm), h.ifs]
  outer := by
    rw [hlevel, Token.pendingBelow_concat (Nat.le_refl _) (by omega), h.outer]

theorem Shows.enter (h : n.Shows ts) (hrole : t.role = .opening) (depth : Nat) :
    Shows ⟨depth, 0, n.ifs :: n.outer⟩ (ts ++ [t]) := by
  have hlevel : Token.level (ts ++ [t]) = Token.level ts + 1 := by
    rw [Token.level_concat, Token.levelStep, hrole]
  have hhere :
      Token.pendingAt (ts ++ [t]) (Token.level ts) = Token.pendingAt ts (Token.level ts) := by
    rw [Token.pendingAt_concat_level (by omega), hrole]
  constructor
  · rw [hlevel, Token.pendingAt_concat, Token.pendingAt_of_lt (Nat.lt_succ_self _)]
    simp
  · rw [hlevel, Token.pendingBelow, hhere, Token.pendingBelow_concat (Nat.le_refl _) (by omega),
      h.ifs, h.outer]

theorem Shows.leave (h : n.Shows ts) (hrole : t.role = .closing) (depth : Nat) {ifs : Nat}
    {outer : List Nat} (houter : n.outer = ifs :: outer) :
    Shows ⟨depth, ifs, outer⟩ (ts ++ [t]) := by
  have hbelow := h.outer
  rw [houter] at hbelow
  cases hopen : Token.level ts with
  | zero =>
    rw [hopen] at hbelow
    contradiction
  | succ l =>
    have hlevel : Token.level (ts ++ [t]) = l := by
      rw [Token.level_concat, Token.levelStep, hrole, hopen]
      rfl
    have hsame := Token.pendingBelow_concat (Nat.le_of_eq hopen.symm) (t := t) (by omega)
    rw [hopen] at hbelow
    rw [← hsame, Token.pendingBelow] at hbelow
    obtain ⟨hifs, houter⟩ := List.cons.inj hbelow
    exact ⟨by rw [hlevel, hifs], by rw [hlevel, houter]⟩

theorem Shows.step (h : n.Shows ts) : (n.step t).Shows (ts ++ [t]) := by
  have hlevel := Token.level_concat ts t
  rw [Token.levelStep] at hlevel
  rw [step_eq]
  cases hrole : t.role with
  | opening => exact h.enter hrole _
  | closing =>
    cases houter : n.outer with
    | nil =>
      have hzero : Token.level ts = 0 := by
        rw [← Token.length_pendingBelow ts (Token.level ts), ← h.outer, houter, List.length_nil]
      rw [hrole] at hlevel
      exact h.stay (by rw [hlevel, hzero]) n.depth (by rw [hrole])
    | cons ifs outer => exact h.leave hrole _ houter
  | branching | ending | plain =>
    rw [hrole] at hlevel
    exact h.stay hlevel _ (by rw [hrole])

end Shows

theorem shows_run (ts : List Token) : (start.run ts).Shows ts := by
  induction ts using List.reverseRecOn with
  | nil => exact ⟨rfl, rfl⟩
  | append_singleton ts t ih =>
    rw [run_append]
    exact ih.step

/-- The depth of the count is the number of open brackets and of `if`s that count. -/
theorem depth_run (ts : List Token) : (start.run ts).depth = Token.weight ts := by
  have hbalanced : (start.run ts).Balanced := balanced_start.run ts
  have hshows := shows_run ts
  rw [hbalanced, Token.weight, Token.card_pending, hshows.ifs, hshows.outer,
    Token.length_pendingBelow]

end Nesting

/-! ## Subtractions that can fail -/

/-- The count as a stack: the `if`s of the open levels, the innermost first, and the total. -/
structure Tally where
  levels : List Nat
  total : Nat
  deriving DecidableEq, Repr

namespace Tally

/-- One level is open, and nothing is counted. -/
def start : Tally :=
  ⟨[0], 0⟩

/-- A difference, if it is not below zero. -/
def minus? (a b : Nat) : Option Nat :=
  if b ≤ a then some (a - b) else none

/-- The stack after one more token.  The last level is not closed. -/
def step? (tally : Tally) (t : Token) : Option Tally :=
  match t.role with
  | .opening => some ⟨0 :: tally.levels, tally.total + 1⟩
  | .closing =>
    if 1 < tally.levels.length then
      (minus? tally.total (1 + tally.levels.headD 0)).map (⟨tally.levels.tail, ·⟩)
    else some tally
  | .branching => some ⟨tally.levels.modifyHead (· + 1), tally.total + 1⟩
  | .ending =>
    match tally.levels with
    | [] => some tally
    | ifs :: outer => (minus? tally.total ifs).map (⟨0 :: outer, ·⟩)
  | .plain => some tally

/-- The stack after some tokens. -/
def run? (tally : Tally) (ts : List Token) : Option Tally :=
  ts.foldlM step? tally

/-- Counts the tokens and reports the first one at which the total passes the limit. -/
def check? (limit : Nat) (log : Log) : Tally → List Located → Option (Bool × Log)
  | _, [] => some (true, log)
  | tally, t :: rest => do
    let tally ← tally.step? t.token
    if limit < tally.total then
      some (false, log.report (Finding.tooDeep limit t.span).diagnostic)
    else check? limit log tally rest

end Tally

namespace Nesting

/-- The count as a stack. -/
def tally (n : Nesting) : Tally :=
  ⟨n.ifs :: n.outer, n.depth⟩

variable {n : Nesting}

theorem Balanced.step? (h : n.Balanced) (t : Token) : n.tally.step? t = some (n.step t).tally := by
  have htotal : n.depth = n.outer.length + (n.ifs + n.outer.sum) := h
  rw [Tally.step?, step_eq]
  cases t.role with
  | opening | branching | plain => rfl
  | closing =>
    cases houter : n.outer with
    | nil => simp [tally, houter]
    | cons ifs outer =>
      rw [houter, List.length_cons] at htotal
      have hle : 1 + n.ifs ≤ n.depth := by omega
      simp [tally, houter, Tally.minus?, hle]
  | ending =>
    have hle : n.ifs ≤ n.depth := by omega
    simp [tally, Tally.minus?, hle]

theorem Balanced.run? (h : n.Balanced) (ts : List Token) :
    n.tally.run? ts = some (n.run ts).tally := by
  induction ts generalizing n with
  | nil => rfl
  | cons t ts ih =>
    rw [Tally.run?, List.foldlM_cons, h.step? t, run_cons]
    exact ih (h.step t)

theorem Balanced.check? (h : n.Balanced) (limit : Nat) (log : Log) (ts : List Located) :
    Tally.check? limit log n.tally ts =
      some (log.reportNesting limit (exceedingFrom? limit n ts)) := by
  induction ts generalizing n with
  | nil => rfl
  | cons t ts ih =>
    rw [Tally.check?, h.step? t.token, exceedingFrom?]
    show (if limit < (n.step t.token).depth then _ else _) = _
    split
    · rfl
    · exact ih (h.step t.token)

end Nesting

/-! ## The check -/

theorem Nesting.within_start_iff {limit : Nat} {ts : List Located} :
    Within limit start ts ↔ ∀ p, p <+: ts → Token.weight (p.map (·.token)) ≤ limit := by
  simp only [Within, after, depth_run]

/-- The check succeeds and reports nothing, or fails with one diagnostic at the first token that
makes the weight pass the limit. -/
theorem Log.checkNesting_cases (log : Log) (limit : Nat) (ts : List Located) :
    (log.checkNesting limit ts = (true, log) ∧
      ∀ p, p <+: ts → Token.weight (p.map (·.token)) ≤ limit) ∨
    ∃ before t after,
      log.checkNesting limit ts = (false, log.report (Finding.tooDeep limit t.span).diagnostic) ∧
      ts = before ++ t :: after ∧ limit < Token.weight ((before ++ [t]).map (·.token)) ∧
      ∀ p, p <+: before → Token.weight (p.map (·.token)) ≤ limit := by
  unfold Log.checkNesting
  cases hdeep : Nesting.exceeding? limit ts with
  | none =>
    exact .inl ⟨rfl, Nesting.within_start_iff.1 (Nesting.exceeding?_eq_none_iff.1 hdeep)⟩
  | some span =>
    obtain ⟨before, t, after, hsplit, rfl, hwithin, hexceeds⟩ :=
      Nesting.exceeding?_eq_some_iff.1 hdeep
    rw [Nesting.after, Nesting.depth_run] at hexceeds
    exact .inr ⟨before, t, after, rfl, hsplit, hexceeds, Nesting.within_start_iff.1 hwithin⟩

/-- The check of the nesting counts what it says.  The subtractions of the count never go below
zero: the total is the number of levels around the innermost one, of which there always is one,
and of the `if`s of all levels.  It is also the number of brackets that are open and of `if`s that
count.  The check fails exactly if this number passes the limit after some of the tokens.  Then one
diagnostic is reported, at the first token where this happens, and otherwise none.  Reading a
source makes this check. -/
theorem nesting_check_exact (log : Log) (limit : Nat) (ts : List Located) :
    (∀ p, p <+: ts → ∃ tally, Tally.start.run? (p.map (·.token)) = some tally ∧
      tally.levels ≠ [] ∧ tally.total = (tally.levels.length - 1) + tally.levels.sum ∧
      tally.total = Token.weight (p.map (·.token))) ∧
    Tally.check? limit log .start ts = some (log.checkNesting limit ts) ∧
    ((log.checkNesting limit ts).1 = false ↔
      ∃ p, p <+: ts ∧ limit < Token.weight (p.map (·.token))) ∧
    ((log.checkNesting limit ts).1 = true → (log.checkNesting limit ts).2 = log) ∧
    ((log.checkNesting limit ts).1 = false → ∃ before t after, ts = before ++ t :: after ∧
      limit < Token.weight ((before ++ [t]).map (·.token)) ∧
      (∀ p, p <+: before → Token.weight (p.map (·.token)) ≤ limit) ∧
      (log.checkNesting limit ts).2.diagnostics =
        log.diagnostics ++ [(Finding.tooDeep limit t.span).diagnostic]) ∧
    ∀ source, log.parse limit source =
      let checked := (log.append ((strays source).map Stray.diagnostic)).checkNesting limit
        (tokens source)
      if checked.1 then checked.2.readProgram source else (none, checked.2) := by
  refine ⟨fun p _ => ?_, Nesting.balanced_start.check? limit log ts, ?_⟩
  · have hbalanced := Nesting.balanced_start.run (p.map (·.token))
    refine ⟨_, Nesting.balanced_start.run? _, List.cons_ne_nil _ _, ?_, Nesting.depth_run _⟩
    simpa [Nesting.tally, Nesting.Balanced] using hbalanced
  · rcases log.checkNesting_cases limit ts with
      ⟨hcheck, hwithin⟩ | ⟨before, t, after, hcheck, hsplit, hexceeds, hwithin⟩
    · rw [hcheck]
      refine ⟨⟨nofun, fun ⟨p, hp, hexceeds⟩ => ?_⟩, fun _ => rfl, nofun, fun _ => rfl⟩
      have hle := hwithin p hp
      omega
    · have hprefix : before ++ [t] <+: ts :=
        ⟨after, by rw [hsplit, List.append_assoc, List.singleton_append]⟩
      rw [hcheck]
      exact ⟨⟨fun _ => ⟨_, hprefix, hexceeds⟩, fun _ => rfl⟩, nofun,
        fun _ => ⟨before, t, after, hsplit, hexceeds, hwithin, rfl⟩,
        fun _ => rfl⟩

/-- A closing bracket too many, and a comma that ends one `if` of two. -/
theorem nesting_check_exact_unmatched :
    let ts : List Located := [⟨.rightParen, ⟨0, 1⟩⟩, ⟨.kwIf, ⟨1, 3⟩⟩, ⟨.leftBrace, ⟨3, 4⟩⟩,
      ⟨.kwIf, ⟨4, 6⟩⟩, ⟨.comma, ⟨6, 7⟩⟩, ⟨.leftParen, ⟨7, 8⟩⟩, ⟨.kwIf, ⟨8, 10⟩⟩]
    Token.weight (ts.map (·.token)) = 4 ∧
    (∃ p, p <+: ts ∧ 3 < Token.weight (p.map (·.token))) ∧
    (Log.empty.checkNesting 3 ts).1 = false ∧
    (Log.empty.checkNesting 3 ts).2.diagnostics = [(Finding.tooDeep 3 ⟨8, 10⟩).diagnostic] := by
  intro ts
  have hweight : Token.weight (ts.map (·.token)) = 4 := by decide +kernel
  have hprefix : ∃ p, p <+: ts ∧ 3 < Token.weight (p.map (·.token)) :=
    ⟨ts, List.prefix_rfl, by rw [hweight]; decide⟩
  obtain ⟨-, -, hfails, -, -, -⟩ := nesting_check_exact .empty 3 ts
  exact ⟨hweight, hprefix, hfails.2 hprefix, by decide +kernel⟩

end TagLang
