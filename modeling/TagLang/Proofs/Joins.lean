import Mathlib.Data.List.TakeWhile
import TagLang.Check
import TagLang.Proofs.Members

/-!
# What joins stand for

Joins are taken of two tags at a time.  `Tag.SumsUp` says, without speaking of joins, that a
tag stands for a whole list of tags, and joins are measured against it.

* `Tag.SumsUp.join`: the join of two tags stands for what both stand for.
  `Tag.not_sumsUp_of_join?`: where two tags have no join, no tag stands for that.
* `Denotes` is the meaning of an ascription, which depends on the set of its members only.
  `Ascription.tag?_eq_some_iff`: the joins from left to right find it, unless all three base
  types come before the first `any`.
* `Ascription.resolve_sums_members` says which tag an ascription gets from its members.
-/

namespace TagLang

namespace Tag

/-! ## Tags of values -/

/-- The tags that an expression can have when nothing is wrong with it. -/
def values : List Tag :=
  [.int, .str, .bool, .intOrStr, .intOrBool, .strOrBool, .any]

theorem ne_undefined_of_mem_values {tag : Tag} (h : tag ∈ values) : tag ≠ undefined := by
  rintro rfl
  revert h
  decide

theorem mem_values_iff {tag : Tag} : tag ∈ values ↔ tag.isConcrete ∨ tag.isUnion ∨ tag = any := by
  cases tag <;> decide

theorem join?_mem_values {a b joined : Tag} (ha : a ∈ values) (hb : b ∈ values)
    (h : a.join? b = some joined) : joined ∈ values := by
  have hall : ∀ a ∈ values, ∀ b ∈ values, (a.join? b).all (values.contains ·) = true := by decide
  have hjoined := hall a ha b hb
  rw [h] at hjoined
  simpa using hjoined

/-! ## Joins -/

/-- The tag stands for all of the tags together: it is `any` if one of them is, and else it
has exactly their members. -/
structure SumsUp (tag : Tag) (tags : List Tag) : Prop where
  eq_any_iff : tag = any ↔ any ∈ tags
  mem_iff : tag ≠ any → ∀ member, member ∈ tag.members ↔ ∃ other ∈ tags, member ∈ other.members

variable {a b joined : Tag} {as bs : List Tag}

theorem SumsUp.singleton (tag : Tag) : tag.SumsUp [tag] := by
  constructor
  · simp [eq_comm]
  · simp

/-- Two lists together have `any` if one of the tags that stand for them is `any`. -/
theorem SumsUp.any_mem_append (has : a.SumsUp as) (hbs : b.SumsUp bs) :
    any ∈ as ++ bs ↔ a = any ∨ b = any := by
  rw [List.mem_append, has.eq_any_iff, hbs.eq_any_iff]

/-- The members of two lists together are those of the tags that stand for them. -/
theorem SumsUp.mem_append (has : a.SumsUp as) (hbs : b.SumsUp bs) (hany : ¬(a = any ∨ b = any))
    (member : Tag) :
    (∃ other ∈ as ++ bs, member ∈ other.members) ↔ member ∈ a.members ∨ member ∈ b.members := by
  obtain ⟨hanyA, hanyB⟩ := not_or.1 hany
  rw [has.mem_iff hanyA, hbs.mem_iff hanyB]
  simp only [List.mem_append, or_and_right, exists_or]

theorem any_mem_members {tag : Tag} : any ∈ tag.members ↔ tag = any := by
  cases tag <;> decide

theorem join?_any (ha : a ≠ undefined) (hb : b ≠ undefined) (hany : a = any ∨ b = any) :
    a.join? b = some any := by
  rcases hany with rfl | rfl
  · revert ha hb
    cases b <;> decide
  · revert ha hb
    cases a <;> decide

/-- Without `undefined` and `any`, joins are about members. -/
theorem mem_members_join? (ha : a ≠ undefined) (hb : b ≠ undefined) (hany : ¬(a = any ∨ b = any))
    (h : a.join? b = some joined) (member : Tag) :
    member ∈ joined.members ↔ member ∈ a.members ∨ member ∈ b.members := by
  rw [join?, if_neg (not_or.2 ⟨ha, hb⟩), if_neg hany] at h
  split at h
  · rename_i hsame
    cases h
    rw [hsame, or_self]
  · rw [mem_of_ofMembers? _ h, List.mem_append]
    intro other hother
    exact (List.mem_append.1 hother).elim members_of_mem members_of_mem

/-- The join of two tags stands for what both stand for. -/
theorem SumsUp.join (ha : a ≠ undefined) (hb : b ≠ undefined) (has : a.SumsUp as)
    (hbs : b.SumsUp bs) (h : a.join? b = some joined) : joined.SumsUp (as ++ bs) := by
  by_cases hany : a = any ∨ b = any
  · rw [join?_any ha hb hany] at h
    cases h
    exact ⟨by simp [has.any_mem_append hbs, hany], fun hne => absurd rfl hne⟩
  · have hmem := mem_members_join? ha hb hany h
    constructor
    · rw [has.any_mem_append hbs, ← any_mem_members, hmem, any_mem_members, any_mem_members]
    · intro _ member
      rw [hmem, has.mem_append hbs hany]

theorem isConcrete_or_isUnion {tag : Tag} (h : tag ∈ values) (hany : tag ≠ any) :
    tag.isConcrete ∨ tag.isUnion := by
  simpa [hany] using mem_values_iff.1 h

/-- One set of tags has one tag of a value that stands for it. -/
theorem SumsUp.unique (has : a.SumsUp as) (hbs : b.SumsUp bs) (ha : a ∈ values) (hb : b ∈ values)
    (h : ∀ tag, tag ∈ as ↔ tag ∈ bs) : a = b := by
  by_cases hany : a = any
  · rw [hany, eq_comm, hbs.eq_any_iff, ← h, ← has.eq_any_iff]
    exact hany
  · have hany' : b ≠ any := by
      rwa [ne_eq, hbs.eq_any_iff, ← h, ← has.eq_any_iff]
    apply eq_of_mem_members (isConcrete_or_isUnion ha hany) (isConcrete_or_isUnion hb hany')
    intro member
    rw [has.mem_iff hany, hbs.mem_iff hany']
    simp only [h]

/-- Where two tags have no join, no tag stands for what both stand for. -/
theorem not_sumsUp_of_join? (ha : a ≠ undefined) (hb : b ≠ undefined) (has : a.SumsUp as)
    (hbs : b.SumsUp bs) (h : a.join? b = none) (tag : Tag) : ¬tag.SumsUp (as ++ bs) := by
  intro hsum
  have hany : ¬(a = any ∨ b = any) := by
    intro hany
    rw [join?_any ha hb hany] at h
    contradiction
  have htag : tag ≠ any := by
    rw [ne_eq, hsum.eq_any_iff, has.any_mem_append hbs]
    exact hany
  have hmembers : ∀ member, member ∈ tag.members ↔ member ∈ a.members ++ b.members := by
    intro member
    rw [hsum.mem_iff htag, has.mem_append hbs hany, List.mem_append]
  rw [join?, if_neg (not_or.2 ⟨ha, hb⟩), if_neg hany] at h
  split at h
  · contradiction
  · obtain ⟨found, hfound⟩ := exists_ofMembers? tag
    rw [ofMembers?_congr hmembers, h] at hfound
    contradiction

end Tag

/-! ## Ascriptions -/

/-- All three base types stand before the first `any`. -/
def Crowded (members : List Base) : Prop :=
  ∀ base ∈ [Base.int, .str, .bool], base ∈ members.takeWhile (· ≠ .any)

instance (members : List Base) : Decidable (Crowded members) :=
  inferInstanceAs (Decidable (∀ base ∈ [Base.int, .str, .bool], _))

variable {members rest : List Base} {tag : Tag}

theorem Base.tag_injective {first second : Base} (h : first.tag = second.tag) :
    first = second := by
  revert h
  cases first <;> cases second <;> decide

theorem Base.tag_mem_map {base : Base} : base.tag ∈ members.map Base.tag ↔ base ∈ members := by
  constructor
  · intro h
    obtain ⟨other, hother, htag⟩ := List.mem_map.1 h
    rwa [← Base.tag_injective htag]
  · exact List.mem_map_of_mem

theorem Base.tag_mem_values (base : Base) : base.tag ∈ Tag.values := by
  cases base <;> decide

theorem Base.members_tag (base : Base) : base.tag.members = [base.tag] := by
  cases base <;> rfl

theorem Base.exists_mem_members {member : Tag} :
    (∃ other ∈ members.map Base.tag, member ∈ other.members) ↔ member ∈ members.map Base.tag := by
  constructor
  · rintro ⟨other, hother, hmember⟩
    obtain ⟨base, -, rfl⟩ := List.mem_map.1 hother
    rw [Base.members_tag, List.mem_singleton] at hmember
    rwa [hmember]
  · intro hmember
    obtain ⟨base, -, rfl⟩ := List.mem_map.1 hmember
    exact ⟨base.tag, hmember, by rw [Base.members_tag, List.mem_singleton]⟩

theorem any_mem_map : .any ∈ members.map Base.tag ↔ .any ∈ members :=
  @Base.tag_mem_map members .any

/-- A tag that stands for base types without `any` has them as its members. -/
theorem Tag.SumsUp.tag_mem_iff (h : tag.SumsUp (members.map Base.tag)) (hany : .any ∉ members)
    (base : Base) : base.tag ∈ tag.members ↔ base ∈ members := by
  have htag : tag ≠ .any := by
    rw [ne_eq, h.eq_any_iff, any_mem_map]
    exact hany
  rw [h.mem_iff htag, Base.exists_mem_members, Base.tag_mem_map]

/-- No tag stands for all three base types. -/
theorem not_sumsUp_of_three (hany : .any ∉ members)
    (h : ∀ base ∈ [Base.int, .str, .bool], base ∈ members) (tag : Tag) :
    ¬tag.SumsUp (members.map Base.tag) := by
  intro hsum
  have hmem : ∀ base ∈ [Base.int, .str, .bool], base.tag ∈ tag.members :=
    fun base hbase => (hsum.tag_mem_iff hany base).2 (h base hbase)
  revert hmem
  cases tag <;> decide

theorem crowded_iff (hany : .any ∉ members) :
    Crowded members ↔ ∀ base ∈ [Base.int, .str, .bool], base ∈ members := by
  have htake : members.takeWhile (· ≠ .any) = members := by
    rw [List.takeWhile_eq_self_iff]
    intro base hbase
    simp only [decide_eq_true_eq]
    rintro rfl
    exact hany hbase
  rw [Crowded, htake]

/-- Members that have become crowded with the last one are without `any`. -/
theorem Crowded.any_not_mem {base : Base} (h : Crowded (members ++ [base]))
    (hfew : ¬Crowded members) : .any ∉ members ++ [base] := by
  intro hany
  apply hfew
  intro other hother
  have hmem := h other hother
  rw [List.takeWhile_append] at hmem
  split at hmem
  · rename_i hall
    have htake := List.IsPrefix.eq_of_length (List.takeWhile_prefix (· ≠ Base.any)) hall
    have hbase : base = .any := by
      rcases List.mem_append.1 hany with hbefore | hlast
      · rw [← htake] at hbefore
        simpa using List.mem_takeWhile_imp hbefore
      · exact (List.mem_singleton.1 hlast).symm
    rw [htake]
    simpa [hbase, htake] using hmem
  · exact hmem

theorem Crowded.append (h : Crowded members) (rest : List Base) : Crowded (members ++ rest) := by
  intro base hbase
  have hmem := h base hbase
  rw [List.takeWhile_append]
  split
  · exact List.mem_append_left _ ((List.takeWhile_prefix _).subset hmem)
  · exact hmem

/-- What base types stand for together: the tag of a value with exactly these members, or `any`
if `any` is among them.  Neither the order of the types nor how often they stand there
matters. -/
structure Denotes (members : List Base) (tag : Tag) : Prop where
  mem_values : tag ∈ Tag.values
  sumsUp : tag.SumsUp (members.map Base.tag)

namespace Denotes

theorem singleton (base : Base) : Denotes [base] base.tag :=
  ⟨base.tag_mem_values, .singleton base.tag⟩

theorem ne_nil (h : Denotes members tag) : members ≠ [] := by
  rintro rfl
  have hvalues : ∀ tag ∈ Tag.values, tag.members ≠ [] := by decide
  obtain ⟨member, hmember⟩ := List.exists_mem_of_ne_nil _ (hvalues tag h.mem_values)
  have hany : tag ≠ .any := by
    rw [ne_eq, h.sumsUp.eq_any_iff]
    exact List.not_mem_nil
  obtain ⟨other, hother, -⟩ := (h.sumsUp.mem_iff hany member).1 hmember
  contradiction

theorem unique {other : Tag} (h : Denotes members tag) (hother : Denotes members other) :
    tag = other :=
  h.sumsUp.unique hother.sumsUp h.mem_values hother.mem_values fun _ => Iff.rfl

/-- Members that are not crowded denote something. -/
theorem exists_of_not_crowded (hne : members ≠ []) (h : ¬Crowded members) :
    ∃ tag, Denotes members tag := by
  by_cases hany : .any ∈ members
  · have hsum : Tag.any.SumsUp (members.map Base.tag) :=
      ⟨⟨fun _ => any_mem_map.2 hany, fun _ => rfl⟩, fun hne => absurd rfl hne⟩
    exact ⟨.any, by decide, hsum⟩
  · rw [crowded_iff hany] at h
    have hconcrete : ∀ member ∈ members.map Base.tag, member.isConcrete = true := by
      intro member hmember
      obtain ⟨base, hbase, rfl⟩ := List.mem_map.1 hmember
      cases base with
      | any => exact absurd hbase hany
      | int | str | bool => rfl
    have hsome : Tag.ofMembers? (members.map Base.tag) ≠ none := by
      rw [ne_eq, Tag.ofMembers?_eq_none_iff hconcrete, List.map_eq_nil_iff]
      rintro (hnil | ⟨hint, hstr, hbool⟩)
      · exact hne hnil
      · apply h
        simp only [List.forall_mem_cons]
        exact ⟨Base.tag_mem_map.1 hint, Base.tag_mem_map.1 hstr, Base.tag_mem_map.1 hbool,
          List.forall_mem_nil _⟩
    obtain ⟨tag, htag⟩ := Option.ne_none_iff_exists'.1 hsome
    have hmem := Tag.mem_of_ofMembers? (fun member hmember => by
      obtain ⟨base, -, rfl⟩ := List.mem_map.1 hmember
      exact base.members_tag) htag
    refine ⟨tag, ?_, ?_, ?_⟩
    · rw [Tag.mem_values_iff, ← or_assoc]
      exact .inl (Tag.isConcrete_or_isUnion_of_ofMembers? hconcrete htag)
    · rw [← Tag.any_mem_members, hmem]
    · intro _ member
      rw [hmem, Base.exists_mem_members]

/-- One more member is one more join. -/
theorem join (h : Denotes members tag) {base : Base} {joined : Tag}
    (hjoin : tag.join? base.tag = some joined) : Denotes (members ++ [base]) joined := by
  have htag := Tag.ne_undefined_of_mem_values h.mem_values
  have hbase := Tag.ne_undefined_of_mem_values base.tag_mem_values
  refine ⟨Tag.join?_mem_values h.mem_values base.tag_mem_values hjoin, ?_⟩
  rw [List.map_append]
  exact h.sumsUp.join htag hbase (.singleton base.tag) hjoin

/-- Members that have no join with the next one are crowded with it. -/
theorem crowded_of_join? (h : Denotes members tag) {base : Base}
    (hjoin : tag.join? base.tag = none) : Crowded (members ++ [base]) := by
  by_contra hfew
  obtain ⟨sum, hsum⟩ := exists_of_not_crowded (by simp) hfew
  have htag := Tag.ne_undefined_of_mem_values h.mem_values
  have hbase := Tag.ne_undefined_of_mem_values base.tag_mem_values
  apply Tag.not_sumsUp_of_join? htag hbase h.sumsUp (.singleton base.tag) hjoin sum
  have hsums := hsum.sumsUp
  rwa [List.map_append] at hsums

/-- Members that denote something and were not crowded before the last one are not crowded. -/
theorem not_crowded {base : Base} (h : Denotes (members ++ [base]) tag)
    (hfew : ¬Crowded members) : ¬Crowded (members ++ [base]) := by
  intro hcrowded
  have hany := hcrowded.any_not_mem hfew
  exact not_sumsUp_of_three hany ((crowded_iff hany).1 hcrowded) tag h.sumsUp

/-- Joins from left to right find what the members denote, unless they come to members that
are crowded.  The induction is on the members that are left; those before them denote the tag
so far. -/
theorem foldlM_eq_some_iff (h : Denotes members tag) (hfew : ¬Crowded members)
    (rest : List Base) (joined : Tag) :
    rest.foldlM (fun joined member => joined.join? member.tag) tag = some joined ↔
      Denotes (members ++ rest) joined ∧ ¬Crowded (members ++ rest) := by
  induction rest generalizing members tag with
  | nil =>
    rw [List.foldlM_nil, List.append_nil, Option.pure_def, Option.some.injEq]
    constructor
    · rintro rfl
      exact ⟨h, hfew⟩
    · rintro ⟨hjoined, -⟩
      exact h.unique hjoined
  | cons base rest ih =>
    rw [List.foldlM_cons, List.append_cons]
    cases hjoin : tag.join? base.tag with
    | none =>
      have hcrowded := (h.crowded_of_join? hjoin).append rest
      constructor
      · intro hfold
        contradiction
      · rintro ⟨-, hfew⟩
        exact absurd hcrowded hfew
    | some next =>
      have hnext := h.join hjoin
      exact ih hnext (hnext.not_crowded hfew)

end Denotes

namespace Ascription

/-- The tag that an ascription stands for. -/
def Denotes (ascription : Ascription) (tag : Tag) : Prop :=
  TagLang.Denotes ascription.members tag

/-- The tag of an ascription is what it denotes, and it has one if its members are not
crowded. -/
theorem tag?_eq_some_iff (ascription : Ascription) (tag : Tag) :
    ascription.tag? = some tag ↔ ascription.Denotes tag ∧ ¬Crowded ascription.members := by
  obtain ⟨members, span⟩ := ascription
  cases members with
  | nil =>
    constructor
    · intro h
      contradiction
    · rintro ⟨hdenotes, -⟩
      exact absurd rfl hdenotes.ne_nil
  | cons first rest =>
    have hfew : ¬Crowded [first] := by cases first <;> decide
    exact (Denotes.singleton first).foldlM_eq_some_iff hfew rest tag

variable {ascription : Ascription}

theorem resolve_of_denotes (h : ascription.Denotes tag) (hfew : ¬Crowded ascription.members) :
    ascription.resolve = ⟨tag, []⟩ := by
  rw [Ascription.resolve, (ascription.tag?_eq_some_iff tag).2 ⟨h, hfew⟩]

theorem resolve_of_crowded (h : Crowded ascription.members) :
    ascription.resolve = ⟨.undefined, [.unsupportedUnion ascription.span]⟩ := by
  have hnone : ascription.tag? = none := by
    rw [Option.eq_none_iff_forall_ne_some]
    intro tag htag
    exact ((ascription.tag?_eq_some_iff tag).1 htag).2 h
  rw [Ascription.resolve, hnone]

/-- An ascription with a tag gets it from the set of its members. -/
theorem resolve_of_not_crowded (hne : ascription.members ≠ [])
    (h : ¬Crowded ascription.members) :
    ascription.resolve.findings = [] ∧ ascription.Denotes ascription.resolve.tag := by
  obtain ⟨tag, hdenotes⟩ := Denotes.exists_of_not_crowded hne h
  rw [resolve_of_denotes hdenotes h]
  exact ⟨rfl, hdenotes⟩

/-- What an ascription stands for.  With all three base types before the first `any` it is
rejected.  Otherwise it is `any` if `any` is among its members, and else the base type or
union with exactly these members.  So two ascriptions with the same set of members, in any
order and with any repetitions, are resolved alike, unless `any` saves one of them from being
crowded and comes too late in the other. -/
theorem resolve_sums_members (ascription : Ascription) (hne : ascription.members ≠ []) :
    (Crowded ascription.members →
      ascription.resolve = ⟨.undefined, [.unsupportedUnion ascription.span]⟩) ∧
    (¬Crowded ascription.members → .any ∈ ascription.members →
      ascription.resolve = ⟨.any, []⟩) ∧
    (¬Crowded ascription.members → .any ∉ ascription.members →
      ∃ tag : Tag, ascription.resolve = ⟨tag, []⟩ ∧ (tag.isConcrete ∨ tag.isUnion) ∧
        ∀ base : Base, base.tag ∈ tag.members ↔ base ∈ ascription.members) ∧
    ∀ other : Ascription, (∀ base, base ∈ other.members ↔ base ∈ ascription.members) →
      (.any ∈ ascription.members → (Crowded other.members ↔ Crowded ascription.members)) →
      other.resolve.tag = ascription.resolve.tag ∧
        (other.resolve.findings = [] ↔ ascription.resolve.findings = []) := by
  refine ⟨resolve_of_crowded, ?_, ?_, ?_⟩
  · intro hcrowded hany
    obtain ⟨hsilent, -, hsum⟩ := resolve_of_not_crowded hne hcrowded
    have htag := hsum.eq_any_iff.2 (any_mem_map.2 hany)
    rw [← htag, ← hsilent]
  · intro hcrowded hany
    obtain ⟨hsilent, hvalue, hsum⟩ := resolve_of_not_crowded hne hcrowded
    have htag : ascription.resolve.tag ≠ .any := by
      rwa [ne_eq, hsum.eq_any_iff, any_mem_map]
    refine ⟨ascription.resolve.tag, by rw [← hsilent], ?_, ?_⟩
    · exact Tag.isConcrete_or_isUnion hvalue htag
    · exact hsum.tag_mem_iff hany
  · intro other hsame hlate
    have hne' : other.members ≠ [] := by
      obtain ⟨base, hbase⟩ := List.exists_mem_of_ne_nil _ hne
      exact List.ne_nil_of_mem ((hsame base).2 hbase)
    have hcrowded : Crowded other.members ↔ Crowded ascription.members := by
      by_cases hany : .any ∈ ascription.members
      · exact hlate hany
      · rw [crowded_iff hany, crowded_iff (mt (hsame _).1 hany)]
        simp only [hsame]
    by_cases h : Crowded ascription.members
    · rw [resolve_of_crowded h, resolve_of_crowded (hcrowded.2 h)]
      simp
    · obtain ⟨hsilent, hvalue, hsum⟩ := resolve_of_not_crowded hne h
      obtain ⟨hsilent', hvalue', hsum'⟩ := resolve_of_not_crowded hne' (mt hcrowded.1 h)
      rw [hsilent, hsilent']
      refine ⟨hsum'.unique hsum hvalue' hvalue ?_, Iff.rfl⟩
      intro tag
      simp only [List.mem_map, hsame]

/-- An `any` that comes before the third base type is in time. -/
theorem resolve_sums_members_early :
    [Base.str, .int, .any, .bool, .int] ≠ [] ∧
    ¬Crowded [.str, .int, .any, .bool, .int] ∧
    (⟨[.str, .int, .any, .bool, .int], ⟨7, 27⟩⟩ : Ascription).resolve = ⟨.any, []⟩ := by
  have hne : [Base.str, .int, .any, .bool, .int] ≠ [] := by decide
  have hcrowded : ¬Crowded [.str, .int, .any, .bool, .int] := by decide
  exact ⟨hne, hcrowded,
    (resolve_sums_members ⟨[.str, .int, .any, .bool, .int], ⟨7, 27⟩⟩ hne).2.1 hcrowded
      (by decide)⟩

end Ascription

/-- An `any` behind the three base types does not widen the ascription, and one before them
does. -/
theorem check_rejects_late_any :
    (check defaultLimit "var x: int|str|bool|any;").log.diagnostics.map
        (fun diagnostic => (diagnostic.code, diagnostic.labels.map (·.span))) =
      [(.unsupportedUnion, [⟨7, 23⟩])] ∧
    (check defaultLimit "var x: any|int|str|bool;").log.diagnostics = [] := by
  decide +kernel

end TagLang
