import TagLang.Tag.Lattice

/-!
# Tags from members

Finding the tag that has given members is measured against the members themselves.

* `Tag.ofMembers?_congr`: order and repetitions do not count.
* `Tag.mem_of_ofMembers?`: what is found has the members that were asked for.
* `Tag.ofMembers?_eq_none_iff`: of the base types, only none and all three have no tag.

`Tag.ofMembers?_finds_members` puts them together, with the symmetry of joins that follows.
-/

namespace TagLang.Tag

/-- Order and repetitions do not count. -/
theorem ofMembers?_congr {first second : List Tag}
    (h : ∀ member, member ∈ first ↔ member ∈ second) : ofMembers? first = ofMembers? second := by
  have hcontains : ∀ member, first.contains member = second.contains member := by
    intro member
    rw [Bool.eq_iff_iff, List.contains_iff_mem, List.contains_iff_mem]
    exact h member
  have hall : ∀ p : Tag → Bool, first.all p = second.all p := by
    intro p
    rw [Bool.eq_iff_iff, List.all_eq_true, List.all_eq_true]
    simp only [h]
  unfold ofMembers?
  rw [hall, hcontains, hcontains, hcontains]
  split
  · rfl
  · cases first with
    | nil =>
      have hsecond : second = [] := List.eq_nil_iff_forall_not_mem.2 fun member hmem => by
        simpa using (h member).2 hmem
      rw [hsecond]
    | cons x first =>
      cases second with
      | nil => simpa using (h x).1 List.mem_cons_self
      | cons y second =>
        by_cases hsame : x = y
        · rw [hsame] at hall ⊢
          simp only [List.head?_cons, Option.filter_some, hall]
        -- Two different members are no single tag, whichever comes first.
        · have hx : (y :: second).all (· == y) = false := by
            rw [List.all_eq_false]
            exact ⟨x, (h x).1 List.mem_cons_self, by simpa using hsame⟩
          have hy : (y :: second).all (· == x) = false := by
            rw [List.all_eq_false]
            exact ⟨y, List.mem_cons_self, by simpa using Ne.symm hsame⟩
          simp only [List.head?_cons, Option.filter_some, hall, hx, hy, Bool.false_eq_true,
            if_false]

theorem members_of_mem {tag member : Tag} (h : member ∈ tag.members) :
    member.members = [member] := by
  revert h
  cases tag <;> cases member <;> decide

/-- What is found has the members that were asked for. -/
theorem mem_of_ofMembers? {members : List Tag} {tag : Tag}
    (hmembers : ∀ member ∈ members, member.members = [member])
    (h : ofMembers? members = some tag) (member : Tag) :
    member ∈ tag.members ↔ member ∈ members := by
  unfold ofMembers? at h
  split at h
  · rename_i hconcrete
    have hbase : member ∈ members → member = int ∨ member = str ∨ member = bool := by
      intro hmem
      have := List.all_eq_true.1 hconcrete member hmem
      cases member <;> simp_all [isConcrete]
    split at h <;> cases h <;> simp only [Tag.members, List.mem_cons] <;> grind
  · obtain ⟨hhead, hall⟩ := Option.filter_eq_some_iff.1 h
    have hmem := List.mem_of_head? hhead
    rw [hmembers tag hmem, List.mem_singleton]
    constructor
    · rintro rfl
      exact hmem
    · exact fun hother => eq_of_beq (List.all_eq_true.1 hall member hother)

/-- Of the base types, only none and all three have no tag. -/
theorem ofMembers?_eq_none_iff {members : List Tag}
    (h : ∀ member ∈ members, member.isConcrete = true) :
    ofMembers? members = none ↔
      members = [] ∨ int ∈ members ∧ str ∈ members ∧ bool ∈ members := by
  have hempty : members = [] ↔ int ∉ members ∧ str ∉ members ∧ bool ∉ members := by
    constructor
    · rintro rfl
      simp
    · intro hnone
      apply List.eq_nil_iff_forall_not_mem.2
      intro member hmem
      have := h member hmem
      cases member <;> simp_all [isConcrete]
  rw [hempty, ofMembers?, if_pos (List.all_eq_true.2 h)]
  simp only [← List.contains_iff_mem]
  cases members.contains int <;> cases members.contains str <;> cases members.contains bool <;>
    simp

theorem exists_ofMembers? (tag : Tag) : ∃ found, ofMembers? tag.members = some found := by
  cases tag <;> exact ⟨_, rfl⟩

/-- A base type or a union is found by its members. -/
theorem ofMembers?_members {tag : Tag} (h : tag.isConcrete ∨ tag.isUnion) :
    ofMembers? tag.members = some tag := by
  revert h
  cases tag <;> decide

/-- A base type or a union is determined by its members. -/
theorem eq_of_mem_members {first second : Tag} (hfirst : first.isConcrete ∨ first.isUnion)
    (hsecond : second.isConcrete ∨ second.isUnion)
    (h : ∀ member, member ∈ first.members ↔ member ∈ second.members) : first = second := by
  have hsame := ofMembers?_congr h
  rw [ofMembers?_members hfirst, ofMembers?_members hsecond] at hsame
  exact Option.some.inj hsame

/-- What is found for base types is one of them or a union. -/
theorem isConcrete_or_isUnion_of_ofMembers? {members : List Tag} {tag : Tag}
    (hconcrete : ∀ member ∈ members, member.isConcrete = true)
    (h : ofMembers? members = some tag) : tag.isConcrete ∨ tag.isUnion := by
  rw [ofMembers?, if_pos (List.all_eq_true.2 hconcrete)] at h
  split at h <;> cases h <;> decide

/-- For base types, the tag with exactly these members is found. -/
theorem ofMembers?_eq_some_iff {members : List Tag} {tag : Tag}
    (hconcrete : ∀ member ∈ members, member.isConcrete = true) :
    ofMembers? members = some tag ↔
      (tag.isConcrete ∨ tag.isUnion) ∧ ∀ member, member ∈ tag.members ↔ member ∈ members := by
  constructor
  · intro h
    refine ⟨isConcrete_or_isUnion_of_ofMembers? hconcrete h, mem_of_ofMembers? ?_ h⟩
    intro member hmember
    have hbase := hconcrete member hmember
    revert hbase
    cases member <;> decide
  · intro ⟨htag, hmembers⟩
    rw [← ofMembers?_congr hmembers, ofMembers?_members htag]

/-- With a member that is no base type, only a single tag is found. -/
theorem ofMembers?_eq_some_iff_forall_eq {members : List Tag} {tag : Tag}
    (h : ∃ member ∈ members, member.isConcrete = false) :
    ofMembers? members = some tag ↔ ∀ member ∈ members, member = tag := by
  obtain ⟨other, hother, habstract⟩ := h
  have hsome : ¬members.all isConcrete = true := by
    rw [List.all_eq_true]
    intro hall
    rw [hall other hother] at habstract
    contradiction
  rw [ofMembers?, if_neg hsome, Option.filter_eq_some_iff, List.all_eq_true]
  simp only [beq_iff_eq]
  constructor
  · exact fun hfirst => hfirst.2
  · intro hall
    refine ⟨?_, hall⟩
    cases members with
    | nil => contradiction
    | cons first rest => rw [List.head?_cons, hall first List.mem_cons_self]

/-! ## Joins are symmetric -/

theorem ofMembers?_append_comm (first second : List Tag) :
    ofMembers? (first ++ second) = ofMembers? (second ++ first) := by
  apply ofMembers?_congr
  intro member
  rw [List.mem_append, List.mem_append, or_comm]

theorem join?_comm (a b : Tag) : a.join? b = b.join? a := by
  unfold join?
  rw [ofMembers?_append_comm]
  by_cases hsame : a = b
  · rw [hsame]
  · simp only [hsame, Ne.symm hsame, if_false, or_comm]

/-- Which tag is found for a list of members.

For base types, it is the base type or the union that has exactly these members, and there is
none exactly if nothing is listed or all three base types are.  If a tag that is no base type
is listed, a tag is found exactly if it is the only one listed.  So the answer depends on the
set of the listed tags, and joining two tags, by their members put one after the other, is
symmetric. -/
theorem ofMembers?_finds_members (members : List Tag) :
    ((∀ member ∈ members, member.isConcrete = true) →
      (∀ tag : Tag, ofMembers? members = some tag ↔
        (tag.isConcrete ∨ tag.isUnion) ∧ ∀ member, member ∈ tag.members ↔ member ∈ members) ∧
      (ofMembers? members = none ↔
        members = [] ∨ int ∈ members ∧ str ∈ members ∧ bool ∈ members)) ∧
    ((∃ member ∈ members, member.isConcrete = false) →
      ∀ tag, ofMembers? members = some tag ↔ ∀ member ∈ members, member = tag) ∧
    (∀ other : List Tag, (∀ member, member ∈ other ↔ member ∈ members) →
      ofMembers? other = ofMembers? members) ∧
    ∀ a b : Tag,
      ofMembers? (a.members ++ b.members) = ofMembers? (b.members ++ a.members) ∧
      a.join? b = b.join? a := by
  refine ⟨?_, ?_, ?_, ?_⟩
  · intro hconcrete
    exact ⟨fun tag => ofMembers?_eq_some_iff hconcrete, ofMembers?_eq_none_iff hconcrete⟩
  · exact fun hother tag => ofMembers?_eq_some_iff_forall_eq hother
  · exact fun other => ofMembers?_congr
  · exact fun a b => ⟨ofMembers?_append_comm a.members b.members, join?_comm a b⟩

end TagLang.Tag
