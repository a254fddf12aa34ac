import Mathlib.Data.List.Forall2
import TagLang.Proofs.Causes

/-!
# Slots of a program

The items of a program stand in blocks, and each block is itself an item.  A slot tells where
an item stands: the numbers of the blocks around it, the innermost first, and its own number.
This module says what a program declares before a slot, and that the scopes of the analysis
hold just that.

* `itemAt?` gives the item in a slot, and `Program.numbered` lists all items with their slots
  in the order of the text.  `numberItems_pairwise` says that the items of one block come in
  order, and `Program.mem_numbered` that no item is missing or added.
* `DeclaresBefore`, `FirstBefore` and `InnermostAround` say what is declared before a slot, in
  its block and in the blocks around.  `declaredBefore?` and `declaredAround?` search for it.
* `Scopes.ShowsAt` ties scopes to a slot, one scope for each block.  `Scopes.ShowsAt.enter` and
  `Scopes.ShowsAt.analyze` are the steps of the walk, and `visitItems_numbered` is the walk.
-/

namespace TagLang

/-! ## Slots -/

/-- Where an item stands: after `index` others in a block.  The block is known by its number
in the block around it, and so on outwards. -/
structure Slot where
  block : List Nat
  index : Nat
  deriving DecidableEq, Repr

namespace Slot

/-- The first slot of a program. -/
def first : Slot :=
  ⟨[], 0⟩

/-- The next slot in the same block. -/
def next (slot : Slot) : Slot :=
  { slot with index := slot.index + 1 }

/-- All numbers of a slot, its own one first. -/
def address (slot : Slot) : List Nat :=
  slot.index :: slot.block

/-- The first slot in the block that stands in a slot. -/
def inner (slot : Slot) : Slot :=
  ⟨slot.address, 0⟩

/-- The block in one slot holds the other slot, at any depth. -/
def Encloses (outer slot : Slot) : Prop :=
  outer.address <:+ slot.block

end Slot

/-- The slots of some blocks that stand in one another, the innermost first. -/
def enclosingSlots : List Nat → List Slot
  | [] => []
  | turn :: outer => ⟨outer, turn⟩ :: enclosingSlots outer

/-- The slots of the blocks around a slot, the innermost first. -/
def Slot.enclosing (slot : Slot) : List Slot :=
  enclosingSlots slot.block

theorem mem_enclosingSlots {outer : Slot} {block : List Nat} :
    outer ∈ enclosingSlots block ↔ outer.address <:+ block := by
  induction block with
  | nil => simp [enclosingSlots, Slot.address]
  | cons turn around ih =>
    rw [enclosingSlots, List.mem_cons, List.suffix_cons_iff, ih]
    obtain ⟨block, index⟩ := outer
    simp [Slot.address, and_comm]

theorem Slot.mem_enclosing {outer slot : Slot} : outer ∈ slot.enclosing ↔ outer.Encloses slot :=
  mem_enclosingSlots

/-- Of the blocks around a slot, the later ones in the list enclose the earlier ones. -/
theorem enclosingSlots_pairwise (block : List Nat) :
    (enclosingSlots block).Pairwise fun slot outer => outer.Encloses slot := by
  induction block with
  | nil => exact .nil
  | cons turn around ih => exact .cons (fun outer houter => mem_enclosingSlots.1 houter) ih

/-! ## Items in their slots -/

/-- The items of a block. -/
def Item.inner? : Item → Option (List Item)
  | .block items _ => some items
  | _ => none

/-- The items of the block with some numbers. -/
def blockAt? (items : List Item) : List Nat → Option (List Item)
  | [] => some items
  | turn :: outer => ((blockAt? items outer).bind (·[turn]?)).bind Item.inner?

/-- The item in a slot. -/
def itemAt? (items : List Item) (slot : Slot) : Option Item :=
  (blockAt? items slot.block).bind (·[slot.index]?)

/-- What the item in a slot declares. -/
def declaredAt? (items : List Item) (slot : Slot) : Option Declaration :=
  (itemAt? items slot).bind Item.declared?

theorem itemAt?_inner {items inside : List Item} {slot : Slot} {span : Span}
    (h : itemAt? items slot = some (.block inside span)) (index : Nat) :
    itemAt? items ⟨slot.address, index⟩ = inside[index]? := by
  have hblock : blockAt? items slot.address = some inside := by
    show (itemAt? items slot).bind Item.inner? = some inside
    rw [h]
    rfl
  simp [itemAt?, hblock]

mutual

/-- An item in a slot and the items inside it, with their slots. -/
def Item.numbered (slot : Slot) : Item → List (Slot × Item)
  | .block items span => (slot, .block items span) :: numberItems slot.inner items
  | item => [(slot, item)]

/-- Items of a block from a slot on and the items inside them, with their slots. -/
def numberItems (slot : Slot) : List Item → List (Slot × Item)
  | [] => []
  | item :: rest => item.numbered slot ++ numberItems slot.next rest

end

/-- All items of a program with their slots, in the order of the text. -/
def Program.numbered (program : Program) : List (Slot × Item) :=
  numberItems .first program.items

theorem Item.self_mem_numbered (slot : Slot) (item : Item) : (slot, item) ∈ item.numbered slot := by
  cases item <;> simp [Item.numbered]

/-- The items of the block itself are numbered from the slot on. -/
theorem getElem?_mem_numberItems (slot : Slot) {items : List Item} {index : Nat} {item : Item}
    (h : items[index]? = some item) :
    (⟨slot.block, slot.index + index⟩, item) ∈ numberItems slot items := by
  induction items generalizing slot index with
  | nil => simp at h
  | cons head rest ih =>
    rw [numberItems, List.mem_append]
    cases index with
    | zero =>
      obtain rfl : head = item := by simpa using h
      exact .inl (head.self_mem_numbered slot)
    | succ index =>
      have hrest : (⟨slot.block, slot.index + 1 + index⟩, item) ∈ numberItems slot.next rest :=
        ih slot.next (by simpa using h)
      rw [Nat.add_right_comm] at hrest
      exact .inr hrest

mutual

/-- With a block, the items in it are numbered. -/
theorem Item.numbered_closed {outer : Slot} {inside : List Item} {span : Span} {index : Nat}
    {found : Item} (hfound : inside[index]? = some found) :
    ∀ (item : Item) (slot : Slot), (outer, .block inside span) ∈ item.numbered slot →
      (⟨outer.address, index⟩, found) ∈ item.numbered slot
  | .var _, slot, h => by simp [Item.numbered] at h
  | .fn _, slot, h => by simp [Item.numbered] at h
  | .block items span, slot, h => by
    rw [Item.numbered] at h ⊢
    rcases List.mem_cons.1 h with heq | h
    · obtain ⟨rfl, rfl, rfl⟩ : outer = slot ∧ inside = items ∧ _ = span := by simpa using heq
      have hinner : (⟨outer.address, 0 + index⟩, found) ∈ numberItems outer.inner inside :=
        getElem?_mem_numberItems outer.inner hfound
      rw [Nat.zero_add] at hinner
      exact List.mem_cons_of_mem _ hinner
    · exact List.mem_cons_of_mem _ (numberItems_closed hfound items slot.inner h)
  | .expr _, slot, h => by simp [Item.numbered] at h

theorem numberItems_closed {outer : Slot} {inside : List Item} {span : Span} {index : Nat}
    {found : Item} (hfound : inside[index]? = some found) :
    ∀ (items : List Item) (slot : Slot), (outer, .block inside span) ∈ numberItems slot items →
      (⟨outer.address, index⟩, found) ∈ numberItems slot items
  | [], slot, h => by simp [numberItems] at h
  | item :: rest, slot, h => by
    rw [numberItems, List.mem_append] at h ⊢
    exact h.imp (Item.numbered_closed hfound item slot) (numberItems_closed hfound rest slot.next)

end

mutual

/-- The numbers of a slot are the last numbers of every slot inside its item. -/
theorem Item.suffix_numbered :
    ∀ (item : Item) (slot : Slot), ∀ placed ∈ item.numbered slot,
      slot.address <:+ placed.1.address
  | .var _, slot, placed, h => by
    obtain rfl := List.mem_singleton.1 h
    exact List.suffix_rfl
  | .fn _, slot, placed, h => by
    obtain rfl := List.mem_singleton.1 h
    exact List.suffix_rfl
  | .block items span, slot, placed, h => by
    rw [Item.numbered] at h
    rcases List.mem_cons.1 h with rfl | h
    · exact List.suffix_rfl
    · obtain ⟨turn, -, hsuffix⟩ := numberItems_suffix items slot.inner placed h
      exact (List.suffix_cons turn slot.address).trans hsuffix
  | .expr _, slot, placed, h => by
    obtain rfl := List.mem_singleton.1 h
    exact List.suffix_rfl

theorem numberItems_suffix :
    ∀ (items : List Item) (slot : Slot), ∀ placed ∈ numberItems slot items,
      ∃ turn, slot.index ≤ turn ∧ turn :: slot.block <:+ placed.1.address
  | [], slot, placed, h => by simp [numberItems] at h
  | item :: rest, slot, placed, h => by
    rw [numberItems, List.mem_append] at h
    rcases h with h | h
    · exact ⟨slot.index, Nat.le_refl _, Item.suffix_numbered item slot placed h⟩
    · obtain ⟨turn, hturn, hsuffix⟩ := numberItems_suffix rest slot.next placed h
      exact ⟨turn, Nat.le_of_succ_le hturn, hsuffix⟩

end

/-- Of two slots in one block, the first has the smaller number. -/
def Slot.Ordered (first second : Slot) : Prop :=
  first.block = second.block → first.index < second.index

/-- A slot inside the item of a slot is not in the same block. -/
theorem Slot.ordered_inner {slot other : Slot} {turn : Nat}
    (h : turn :: slot.address <:+ other.address) : slot.Ordered other := by
  intro hblock
  have hlength := h.length_le
  simp only [address, List.length_cons, hblock] at hlength
  omega

/-- The slots inside an item come before those inside a later item of the same block. -/
theorem Slot.ordered_of_suffix {slot first second : Slot} {turn : Nat} (hturn : slot.index < turn)
    (hfirst : slot.address <:+ first.address) (hsecond : turn :: slot.block <:+ second.address) :
    first.Ordered second := by
  intro hblock
  rw [address, address, List.suffix_cons_iff] at hfirst
  rw [address, ← hblock, List.suffix_cons_iff] at hsecond
  rcases hfirst with hfirst | hfirst <;> rcases hsecond with hsecond | hsecond
  · obtain ⟨hindex, -⟩ := List.cons.inj hfirst
    obtain ⟨hsecond, -⟩ := List.cons.inj hsecond
    omega
  · obtain ⟨-, htail⟩ := List.cons.inj hfirst
    have hlength := hsecond.length_le
    simp only [List.length_cons, htail] at hlength
    omega
  · obtain ⟨-, htail⟩ := List.cons.inj hsecond
    have hlength := hfirst.length_le
    simp only [List.length_cons, htail] at hlength
    omega
  · -- Both run through the block of the two slots, so the numbers there are the same.
    have heq := (List.suffix_of_suffix_length_le hfirst hsecond (by simp)).eq_of_length (by simp)
    obtain ⟨hindex, -⟩ := List.cons.inj heq
    omega

mutual

theorem Item.numbered_pairwise :
    ∀ (item : Item) (slot : Slot),
      (item.numbered slot).Pairwise fun first second => first.1.Ordered second.1
  | .var _, slot => List.pairwise_singleton _ _
  | .fn _, slot => List.pairwise_singleton _ _
  | .block items span, slot => by
    rw [Item.numbered]
    refine .cons (fun placed hplaced => ?_) (numberItems_pairwise items slot.inner)
    obtain ⟨turn, -, hsuffix⟩ := numberItems_suffix items slot.inner placed hplaced
    exact Slot.ordered_inner hsuffix
  | .expr _, slot => List.pairwise_singleton _ _

/-- The items of one block are numbered in order. -/
theorem numberItems_pairwise :
    ∀ (items : List Item) (slot : Slot),
      (numberItems slot items).Pairwise fun first second => first.1.Ordered second.1
  | [], slot => .nil
  | item :: rest, slot => by
    rw [numberItems, List.pairwise_append]
    refine ⟨Item.numbered_pairwise item slot, numberItems_pairwise rest slot.next,
      fun first hfirst second hsecond => ?_⟩
    obtain ⟨turn, hturn, hsuffix⟩ := numberItems_suffix rest slot.next second hsecond
    exact Slot.ordered_of_suffix hturn (Item.suffix_numbered item slot first hfirst) hsuffix

end

/-- Every item in a slot is numbered with it. -/
theorem mem_numberItems_of_itemAt? {items : List Item} {slot : Slot} {item : Item}
    (h : itemAt? items slot = some item) : (slot, item) ∈ numberItems .first items := by
  obtain ⟨block, index⟩ := slot
  induction block generalizing index item with
  | nil =>
    have hmem : (⟨[], 0 + index⟩, item) ∈ numberItems .first items :=
      getElem?_mem_numberItems .first (by simpa [itemAt?, blockAt?] using h)
    rwa [Nat.zero_add] at hmem
  | cons turn outer ih =>
    -- The slot around is that of a block, which is numbered with all it holds.
    obtain ⟨inside, hinside, hitem⟩ := Option.bind_eq_some_iff.1 h
    obtain ⟨around, haround, hinner⟩ := Option.bind_eq_some_iff.1 hinside
    cases around with
    | block items span =>
      obtain rfl : items = inside := by simpa [Item.inner?] using hinner
      exact numberItems_closed hitem _ _ (ih turn haround)
    | _ => simp [Item.inner?] at hinner

/-! ## What stands before a slot -/

/-- The first declaration of a name in the block of a slot and before it. -/
def declaredBefore? (items : List Item) (slot : Slot) (text : String) : Option Declaration :=
  (blockAt? items slot.block).bind fun block => firstDeclaration? (block.take slot.index) text

/-- The name is declared by the item with the number in the block of the slot. -/
def DeclaresAt (items : List Item) (slot : Slot) (text : String) (index : Nat)
    (declared : Declaration) : Prop :=
  declaredAt? items { slot with index := index } = some declared ∧ declared.name.text = text

/-- The name is declared in the block of the slot and before it. -/
def DeclaresBefore (items : List Item) (slot : Slot) (text : String) : Prop :=
  ∃ index < slot.index, ∃ declared, DeclaresAt items slot text index declared

/-- The declaration is the first one of the name in the block of the slot, and it stands before
the slot. -/
def FirstBefore (items : List Item) (slot : Slot) (text : String) (declared : Declaration) :
    Prop :=
  ∃ index < slot.index, DeclaresAt items slot text index declared ∧
    ∀ earlier < index, ∀ other, ¬DeclaresAt items slot text earlier other

section

variable {items block : List Item} {slot : Slot} {text : String} {declared : Declaration}

theorem FirstBefore.declaresBefore (h : FirstBefore items slot text declared) :
    DeclaresBefore items slot text := by
  obtain ⟨index, hindex, hdeclares, -⟩ := h
  exact ⟨index, hindex, declared, hdeclares⟩

theorem declaresAt_iff (hblock : blockAt? items slot.block = some block) {index : Nat} :
    DeclaresAt items slot text index declared ↔
      block[index]?.bind Item.declared? = some declared ∧ declared.name.text = text := by
  simp [DeclaresAt, declaredAt?, itemAt?, hblock]

theorem not_declaresBefore (h : declaredBefore? items slot text = none) :
    ¬DeclaresBefore items slot text := by
  rintro ⟨index, hindex, declared, hdeclares⟩
  cases hblock : blockAt? items slot.block with
  | none => simp [DeclaresAt, declaredAt?, itemAt?, hblock] at hdeclares
  | some block =>
    obtain ⟨hdeclared, htext⟩ := (declaresAt_iff hblock).1 hdeclares
    obtain ⟨item, hitem, hdeclared⟩ := Option.bind_eq_some_iff.1 hdeclared
    have hmem : item ∈ block.take slot.index :=
      List.mem_of_getElem? (by rw [List.getElem?_take_of_lt hindex, hitem])
    rw [declaredBefore?, hblock] at h
    have hother := List.find?_eq_none.1 h declared (List.mem_filterMap.2 ⟨item, hmem, hdeclared⟩)
    exact hother (by simpa using htext)

theorem firstBefore_of_eq_some (h : declaredBefore? items slot text = some declared) :
    FirstBefore items slot text declared := by
  obtain ⟨block, hblock, hfirst⟩ := Option.bind_eq_some_iff.1 h
  have htext : declared.name.text = text := by simpa using List.find?_some hfirst
  rw [firstDeclaration?, declarations, Scope.find?, List.find?_filterMap] at hfirst
  obtain ⟨item, hitem, hdeclared⟩ := Option.bind_eq_some_iff.1 hfirst
  obtain ⟨-, index, hindex, hget, hearlier⟩ := List.find?_eq_some_iff_getElem.1 hitem
  have hlt : index < slot.index := by
    rw [List.length_take] at hindex
    omega
  have hat : ∀ number < slot.index, (block.take slot.index)[number]? = block[number]? :=
    fun number => List.getElem?_take_of_lt
  refine ⟨index, hlt, (declaresAt_iff hblock).2 ⟨?_, htext⟩, fun earlier hlt' other hother => ?_⟩
  · rw [← hat index hlt, List.getElem?_eq_getElem hindex, hget]
    exact hdeclared
  · obtain ⟨hother, hname⟩ := (declaresAt_iff hblock).1 hother
    rw [← hat earlier (by omega), List.getElem?_eq_getElem (by omega), Option.bind_some] at hother
    have hnot := hearlier earlier hlt'
    rw [hother] at hnot
    simp [hname] at hnot

theorem declaresBefore_iff :
    DeclaresBefore items slot text ↔ (declaredBefore? items slot text).isSome = true := by
  cases hfound : declaredBefore? items slot text with
  | none => simpa using not_declaresBefore hfound
  | some declared => simpa using (firstBefore_of_eq_some hfound).declaresBefore

instance : Decidable (DeclaresBefore items slot text) :=
  decidable_of_iff _ declaresBefore_iff.symm

/-- Of the blocks around the slot with a declaration of the name before them, the one in `outer`
is the innermost. -/
structure InnermostAround (items : List Item) (slot : Slot) (text : String) (outer : Slot) :
    Prop where
  encloses : outer.Encloses slot
  declares : DeclaresBefore items outer text
  innermost : ∀ other : Slot, other.Encloses slot → DeclaresBefore items other text →
    other = outer ∨ other.Encloses outer

/-- What is declared first in the innermost block around a slot, among those that declare the
name before they come to the slot. -/
def declaredAround? (items : List Item) (slot : Slot) (text : String) : Option Declaration :=
  slot.enclosing.findSome? (declaredBefore? items · text)

theorem not_declaresBefore_around (h : declaredAround? items slot text = none) (outer : Slot)
    (houter : outer.Encloses slot) : ¬DeclaresBefore items outer text :=
  not_declaresBefore (List.findSome?_eq_none_iff.1 h outer (Slot.mem_enclosing.2 houter))

theorem innermostAround_of_eq_some (h : declaredAround? items slot text = some declared) :
    ∃ outer, InnermostAround items slot text outer ∧ FirstBefore items outer text declared := by
  obtain ⟨nearer, outer, farther, hsplit, hfound, hnearer⟩ := List.findSome?_eq_some_iff.1 h
  have hfirst := firstBefore_of_eq_some hfound
  have houter : outer ∈ slot.enclosing := hsplit ▸ by simp
  refine ⟨outer, ⟨Slot.mem_enclosing.1 houter, hfirst.declaresBefore, ?_⟩, hfirst⟩
  intro other hother hdeclares
  have hpairwise := enclosingSlots_pairwise slot.block
  rw [← Slot.mem_enclosing, hsplit, List.mem_append, List.mem_cons] at hother
  rw [← Slot.enclosing, hsplit, List.pairwise_append, List.pairwise_cons] at hpairwise
  rcases hother with hother | rfl | hother
  · exact absurd hdeclares (not_declaresBefore (hnearer other hother))
  · exact .inl rfl
  · exact .inr (hpairwise.2.1.1 other hother)

end

/-! ## The scopes at a slot -/

/-- The scopes hold what is declared before the slot: the current one in its block, and each
other one in a block around it. -/
def Scopes.ShowsAt (scopes : Scopes) (items : List Item) (slot : Slot) : Prop :=
  List.Forall₂ (fun scope place => ∀ text, scope.find? text = declaredBefore? items place text)
    (scopes.current :: scopes.outer) (slot :: slot.enclosing)

namespace Scopes.ShowsAt

variable {scopes : Scopes} {items : List Item} {slot : Slot}

theorem current (h : scopes.ShowsAt items slot) (text : String) :
    scopes.current.find? text = declaredBefore? items slot text :=
  (List.forall₂_cons.1 h).1 text

theorem around? (h : scopes.ShowsAt items slot) (text : String) :
    scopes.around? text = declaredAround? items slot text := by
  have houter := (List.forall₂_cons.1 h).2
  unfold Scopes.around? declaredAround?
  generalize scopes.outer = outer, slot.enclosing = places at houter ⊢
  induction houter with
  | nil => rfl
  | cons hscope _ ih => rw [List.findSome?_cons, List.findSome?_cons, hscope text, ih]

theorem first : Scopes.empty.ShowsAt items .first :=
  .cons (fun _ => rfl) .nil

/-- In a block that has just been entered, nothing is declared yet. -/
theorem enter (h : scopes.ShowsAt items slot) : scopes.enter.ShowsAt items slot.inner := by
  refine .cons (fun text => ?_) h
  cases hblock : blockAt? items slot.address with
  | none => simp [declaredBefore?, Slot.inner, hblock, Scopes.enter]
  | some block =>
    simp [declaredBefore?, Slot.inner, hblock, Scopes.enter, firstDeclaration?, declarations]

/-- After its item, the declaration in a slot stands before the next one. -/
theorem analyze {env : Env} (h : env.scopes.ShowsAt items slot) {item : Item}
    (hitem : itemAt? items slot = some item) :
    (item.analyze env).scopes.ShowsAt items slot.next := by
  obtain ⟨block, hblock, hget⟩ := Option.bind_eq_some_iff.1 hitem
  refine .cons (fun text => ?_) ?_
  · rw [Item.find?_analyze, h.current, declaredBefore?, declaredBefore?, hblock, Option.bind_some,
      ← firstDeclaration?_append]
    simp [Slot.next, hblock, List.take_add_one, hget]
  · rw [Item.outer_analyze]
    exact (List.forall₂_cons.1 h).2

end Scopes.ShowsAt

/-- The visit comes to the item in the slot, with the scopes that belong there. -/
structure Visit.StandsAt (items : List Item) (placed : Slot × Item) (visit : Visit) : Prop where
  item_eq : visit.item = placed.2
  itemAt : itemAt? items placed.1 = some placed.2
  shows : visit.scopes.ShowsAt items placed.1

mutual

theorem Item.visits_numbered (items : List Item) :
    ∀ (item : Item) (env : Env) (slot : Slot), itemAt? items slot = some item →
      env.scopes.ShowsAt items slot →
      List.Forall₂ (Visit.StandsAt items) (item.numbered slot) (item.visits env)
  | .var _, env, slot, hitem, hshows => .cons ⟨rfl, hitem, hshows⟩ .nil
  | .fn _, env, slot, hitem, hshows => .cons ⟨rfl, hitem, hshows⟩ .nil
  | .block inside span, env, slot, hitem, hshows => by
    rw [Item.numbered, Item.visits]
    refine .cons ⟨rfl, hitem, hshows⟩ ?_
    have hinside : ∀ index, itemAt? items ⟨slot.address, 0 + index⟩ = inside[index]? := by
      intro index
      rw [Nat.zero_add, itemAt?_inner hitem]
    exact visitItems_numbered items inside { env with scopes := env.scopes.enter } slot.inner
      hinside hshows.enter
  | .expr _, env, slot, hitem, hshows => .cons ⟨rfl, hitem, hshows⟩ .nil

/-- The walk through the items of a block from a slot on comes to them in their order. -/
theorem visitItems_numbered (items : List Item) :
    ∀ (rest : List Item) (env : Env) (slot : Slot),
      (∀ index, itemAt? items ⟨slot.block, slot.index + index⟩ = rest[index]?) →
      env.scopes.ShowsAt items slot →
      List.Forall₂ (Visit.StandsAt items) (numberItems slot rest) (visitItems env rest)
  | [], env, slot, _, _ => .nil
  | item :: rest, env, slot, hitems, hshows => by
    have hitem : itemAt? items slot = some item := hitems 0
    have hrest : ∀ index, itemAt? items ⟨slot.block, slot.index + 1 + index⟩ = rest[index]? := by
      intro index
      rw [Nat.add_right_comm]
      exact hitems (index + 1)
    rw [numberItems, visitItems]
    refine List.rel_append (Item.visits_numbered items item env slot hitem hshows) ?_
    exact visitItems_numbered items rest { env with scopes := (item.analyze env).scopes } slot.next
      hrest (hshows.analyze hitem)

end

/-- The analysis of a program visits its items in the order of the text. -/
theorem Program.visits_numbered (program : Program) (limit : Nat) :
    List.Forall₂ (Visit.StandsAt program.items) program.numbered (program.visits limit) := by
  have hitems : ∀ index, itemAt? program.items ⟨[], 0 + index⟩ = program.items[index]? := by
    intro index
    rw [Nat.zero_add]
    rfl
  exact visitItems_numbered program.items program.items ⟨.empty, limit⟩ .first hitems .first

/-- The numbered items are those that stand in some slot. -/
theorem Program.mem_numbered (program : Program) {slot : Slot} {item : Item} :
    (slot, item) ∈ program.numbered ↔ itemAt? program.items slot = some item := by
  refine ⟨fun h => ?_, mem_numberItems_of_itemAt?⟩
  -- The limit plays no part in the walk.
  have hwalk : List.Forall₂
      (fun placed visit => itemAt? program.items placed.1 = some placed.2 ∧
        visit.StandsAt program.items placed) program.numbered (program.visits 0) :=
    (program.visits_numbered 0).imp fun _ _ hstands => ⟨hstands.itemAt, hstands⟩
  exact ((List.forall₂_and_left _ _).1 hwalk).1 (slot, item) h

end TagLang
