import TagLang.Tag.Marked

/-!
# Code words, bit by bit

A code word is a signed machine word, and every one of the 2^32 words can be read.  Here words
are spoken of by their bits (`Mark.IsSet`, `Marked.unmarked`), while the reading goes by the
number that a word stands for.  The two views are brought together for the words that are not
negative.

* `Marked.toInt_unmarked`: clearing the bits of the marks leaves the base code of the word.
* `Marked.decode_of_conflict`, `Marked.decode_of_unknown` and `Marked.decode_of_known` sort the
  words into three classes, each with its answer.
* `Marked.decode_encode` is the other direction.

`Marked.decode_inverts_encode` puts them together.  The word `-1` has the bits of both marks
set, and no negative word is refused for its marks.
-/

namespace TagLang

/-- The place of the mark's bit, counted from the lowest one. -/
def Mark.position : Mark → Nat
  | logical => 4
  | relational => 5

/-- The bit of the mark is set in the word. -/
def Mark.IsSet (mark : Mark) (code : Int32) : Prop :=
  code.toBitVec.getLsbD mark.position = true

instance (mark : Mark) (code : Int32) : Decidable (mark.IsSet code) :=
  inferInstanceAs (Decidable (_ = true))

/-! ## Base codes -/

theorem Tag.baseCode?_of_ofBaseCode? {base : Nat} {tag : Tag}
    (h : Tag.ofBaseCode? base = some tag) : tag.baseCode? = some base := by
  unfold Tag.ofBaseCode? at h
  split at h <;> cases h <;> rfl

/-- The base codes go from `0` to `8`. -/
theorem Tag.ofBaseCode?_eq_none_iff {base : Nat} : Tag.ofBaseCode? base = none ↔ 8 < base := by
  have hsmall : ∀ base < 9, Tag.ofBaseCode? base ≠ none := by decide
  constructor
  · intro hnone
    exact Nat.lt_of_not_le fun hle => hsmall base (Nat.lt_succ_of_le hle) hnone
  · intro hlarge
    obtain ⟨above, rfl⟩ := Nat.exists_eq_add_of_le' hlarge
    rfl

namespace Marked

/-- The bits of both marks are set. -/
def BothSet (code : Int32) : Prop :=
  Mark.logical.IsSet code ∧ Mark.relational.IsSet code

instance (code : Int32) : Decidable (BothSet code) :=
  inferInstanceAs (Decidable (_ ∧ _))

/-- The word with the bits of both marks cleared. -/
def unmarked (code : Int32) : Int32 :=
  code &&& ~~~0b110000

/-- Words that stand for no tag: the negative ones but `-1`, and those whose base code is too
large. -/
def Unknown (code : Int32) : Prop :=
  code < -1 ∨ 0 ≤ code ∧ ¬BothSet code ∧ 8 < unmarked code

instance (code : Int32) : Decidable (Unknown code) :=
  inferInstanceAs (Decidable (_ ∨ _))

/-! ## Bits and numbers -/

/-- A number is the sum of its base code and its marks. -/
theorem baseOfWord_add_marks (word : Nat) :
    baseOfWord word + ((if word.testBit 4 then 16 else 0) + (if word.testBit 5 then 32 else 0)) =
      word := by
  simp only [baseOfWord, Nat.testBit_eq_decide_div_mod_eq, decide_eq_true_eq]
  split <;> split <;> omega

/-- What is kept of a word and what is cleared add up to it. -/
theorem toNat_and_not_add_and (word mask : BitVec 32) :
    (word &&& ~~~mask).toNat + (word &&& mask).toNat = word.toNat := by
  have hdisjoint : (word &&& ~~~mask) &&& (word &&& mask) = 0#32 := by grind
  have hjoin : (word &&& ~~~mask) ||| (word &&& mask) = word := by
    rw [← BitVec.and_or_distrib_left, BitVec.not_or_self, BitVec.and_allOnes]
  rw [← BitVec.toNat_add_of_and_eq_zero hdisjoint,
    BitVec.add_eq_or_of_and_eq_zero _ _ hdisjoint, hjoin]

/-- What is cleared is a sum of powers of two. -/
theorem toNat_and_marks (word : BitVec 32) :
    (word &&& 0b110000#32).toNat =
      (if word.toNat.testBit 4 then 16 else 0) + (if word.toNat.testBit 5 then 32 else 0) := by
  have hmask : 0b110000#32 = BitVec.twoPow 32 4 ||| BitVec.twoPow 32 5 := by decide
  rw [hmask, BitVec.and_or_distrib_left, BitVec.and_twoPow, BitVec.and_twoPow,
    BitVec.testBit_toNat, BitVec.testBit_toNat]
  split <;> split <;> rfl

variable {code : Int32} {marked : Marked} {error : CodeError}

theorem toNat_toBitVec (h : 0 ≤ code) : code.toBitVec.toNat = code.toInt.toNat := by
  rw [Int32.toNat_toBitVec_of_le h, Int32.toNat_toInt]

theorem testBit_position (h : 0 ≤ code) (mark : Mark) :
    code.toInt.toNat.testBit mark.position = true ↔ mark.IsSet code := by
  rw [← toNat_toBitVec h, BitVec.testBit_toNat, Mark.IsSet]

/-- Clearing the bits of the marks leaves the base code. -/
theorem toInt_unmarked (h : 0 ≤ code) :
    (unmarked code).toInt = baseOfWord code.toInt.toNat := by
  have hsum := baseOfWord_add_marks code.toInt.toNat
  have hkept : (unmarked code).toBitVec.toNat = baseOfWord code.toInt.toNat := by
    have hsplit := toNat_and_not_add_and code.toBitVec 0b110000#32
    rw [toNat_and_marks, toNat_toBitVec h] at hsplit
    show (code.toBitVec &&& ~~~0b110000#32).toNat = _
    omega
  -- The base code is at most the word, so its sign bit is clear too.
  have hsmall : 2 * (unmarked code).toBitVec.toNat < 2 ^ 32 := by
    have := code.toInt_lt
    omega
  rw [← Int32.toInt_toBitVec, BitVec.toInt_eq_toNat_of_lt hsmall, hkept]

/-! ## Reading a word -/

/-- The mark of a word that does not have both. -/
def markOf? (code : Int32) : Option Mark :=
  if Mark.logical.IsSet code then some .logical
  else if Mark.relational.IsSet code then some .relational
  else none

/-- The reading of a word that is not negative, by its bits. -/
theorem decode_of_nonneg (h : 0 ≤ code) :
    decode code =
      if BothSet code then .error (.conflictingMarks code)
      else
        match Tag.ofBaseCode? (baseOfWord code.toInt.toNat) with
        | none => .error (.unknownTag code)
        | some tag => .ok ⟨tag, markOf? code⟩ := by
  have hnonneg : ¬code < 0 := Int32.not_lt.2 h
  have hne : code ≠ -1 := by
    intro heq
    rw [heq] at h
    exact absurd h (by decide)
  rw [decode, if_neg hne, if_neg hnonneg]
  simp only [BothSet, markOf?, ← testBit_position h, Mark.position]
  cases code.toInt.toNat.testBit 4 <;> cases code.toInt.toNat.testBit 5 <;>
    cases Tag.ofBaseCode? (baseOfWord code.toInt.toNat) <;> rfl

theorem decode_of_conflict (h : 0 ≤ code) (hboth : BothSet code) :
    decode code = .error (.conflictingMarks code) := by
  rw [decode_of_nonneg h, if_pos hboth]

/-- The base code of a word is too large for a tag. -/
theorem ofBaseCode?_baseOfWord_eq_none_iff (h : 0 ≤ code) :
    Tag.ofBaseCode? (baseOfWord code.toInt.toNat) = none ↔ 8 < unmarked code := by
  have height : (8 : Int32).toInt = 8 := by decide
  rw [Tag.ofBaseCode?_eq_none_iff, Int32.lt_iff_toInt_lt, toInt_unmarked h, height]
  omega

theorem decode_of_unknown (h : Unknown code) : decode code = .error (.unknownTag code) := by
  rcases h with hlow | ⟨hnonneg, hmarks, hlarge⟩
  · have hne : code ≠ -1 := Int32.ne_of_lt hlow
    have hneg : code < 0 := Int32.lt_trans hlow (by decide)
    rw [decode, if_neg hne, if_pos hneg]
  · have hnone := (ofBaseCode?_baseOfWord_eq_none_iff hnonneg).2 hlarge
    rw [decode_of_nonneg hnonneg, if_neg hmarks, hnone]

/-- The marks of a word are written as they are read. -/
theorem encode_markOf? (h : 0 ≤ code) (hmarks : ¬BothSet code) {tag : Tag}
    (htag : Tag.ofBaseCode? (baseOfWord code.toInt.toNat) = some tag) :
    encode ⟨tag, markOf? code⟩ = code := by
  have hbits : ((markOf? code).map Mark.bit).getD 0 =
      (if code.toInt.toNat.testBit 4 then 16 else 0) +
        (if code.toInt.toNat.testBit 5 then 32 else 0) := by
    revert hmarks
    simp only [BothSet, markOf?, ← testBit_position h, Mark.position]
    cases code.toInt.toNat.testBit 4 <;> cases code.toInt.toNat.testBit 5 <;> simp [Mark.bit]
  rw [encode, Tag.baseCode?_of_ofBaseCode? htag]
  show Int32.ofNat (baseOfWord code.toInt.toNat + ((markOf? code).map Mark.bit).getD 0) = code
  rw [hbits, baseOfWord_add_marks, Int32.toNat_toInt, Int32.ofNat_toNatClampNeg code h]

/-- Every other word is that of a marked tag. -/
theorem decode_of_known (hmarks : ¬(0 ≤ code ∧ BothSet code)) (h : ¬Unknown code) :
    ∃ marked, decode code = .ok marked ∧ marked.encode = code := by
  by_cases hundefined : code = -1
  · rw [hundefined]
    exact ⟨⟨.undefined, none⟩, rfl, rfl⟩
  · have hnonneg : 0 ≤ code := by
      have hlow : ¬code < -1 := fun hlow => h (.inl hlow)
      have hminus : (-1 : Int32).toInt = -1 := by decide
      have hzero : (0 : Int32).toInt = 0 := by decide
      rw [← Int32.toInt_inj, hminus] at hundefined
      rw [Int32.lt_iff_toInt_lt, hminus] at hlow
      rw [Int32.le_iff_toInt_le, hzero]
      omega
    have hfew : ¬BothSet code := fun hboth => hmarks ⟨hnonneg, hboth⟩
    have hsome : Tag.ofBaseCode? (baseOfWord code.toInt.toNat) ≠ none := fun hnone =>
      h (.inr ⟨hnonneg, hfew, (ofBaseCode?_baseOfWord_eq_none_iff hnonneg).1 hnone⟩)
    obtain ⟨tag, htag⟩ := Option.ne_none_iff_exists'.1 hsome
    refine ⟨⟨tag, markOf? code⟩, ?_, encode_markOf? hnonneg hfew htag⟩
    rw [decode_of_nonneg hnonneg, if_neg hfew, htag]

/-- A word is not refused for two reasons. -/
theorem not_unknown_of_conflict (h : 0 ≤ code) (hboth : BothSet code) : ¬Unknown code := by
  rintro (hlow | ⟨-, hfew, -⟩)
  · exact absurd (Int32.lt_of_le_of_lt h hlow) (by decide)
  · exact hfew hboth

/-- A word that is read is written back as it was. -/
theorem encode_of_decode (h : decode code = .ok marked) : marked.encode = code := by
  by_cases hconflict : 0 ≤ code ∧ BothSet code
  · rw [decode_of_conflict hconflict.1 hconflict.2] at h
    contradiction
  by_cases hunknown : Unknown code
  · rw [decode_of_unknown hunknown] at h
    contradiction
  obtain ⟨read, hread, hencode⟩ := decode_of_known hconflict hunknown
  rw [h] at hread
  cases hread
  exact hencode

/-- A word that is not read is refused for its marks or for its base code. -/
theorem decode_eq_error_iff :
    decode code = .error error ↔
      error = .conflictingMarks code ∧ 0 ≤ code ∧ BothSet code ∨
        error = .unknownTag code ∧ Unknown code := by
  by_cases hconflict : 0 ≤ code ∧ BothSet code
  · have hknown := not_unknown_of_conflict hconflict.1 hconflict.2
    simp [decode_of_conflict hconflict.1 hconflict.2, hconflict, hknown, eq_comm]
  by_cases hunknown : Unknown code
  · simp [decode_of_unknown hunknown, hconflict, hunknown, eq_comm]
  · obtain ⟨marked, hread, -⟩ := decode_of_known hconflict hunknown
    simp [hread, hconflict, hunknown]

/-- No part of a single word is missing. -/
theorem decode_ne_missing (code : Int32) :
    decode code ≠ .error .missingArity ∧ decode code ≠ .error .missingResult := by
  simp [decode_eq_error_iff]

/-- A marked tag is read back from its word; `undefined` loses its mark. -/
theorem decode_encode (marked : Marked) :
    decode marked.encode =
      .ok (if marked.tag = .undefined then ⟨.undefined, none⟩ else marked) := by
  obtain ⟨tag, mark⟩ := marked
  cases mark with
  | none => cases tag <;> rfl
  | some mark => cases mark <;> cases tag <;> rfl

/-- Which words are read, and as what.

A word that is read as a marked tag is the word of that tag, so no two words are read alike.  A
word that is not negative is refused for its marks if both are set, whatever its base code is.
It is unknown if it is negative and not `-1`, or if its base code is greater than `8`.  Every
other word is read.  In the other direction, a marked tag is read back from its word, except
that `undefined` loses its mark. -/
theorem decode_inverts_encode :
    (∀ code : Int32,
      (∀ marked, decode code = .ok marked → marked.encode = code) ∧
      (∀ other marked, decode code = .ok marked → decode other = .ok marked → other = code) ∧
      (∀ named, decode code = .error (.conflictingMarks named) ↔
        named = code ∧ 0 ≤ code ∧ BothSet code) ∧
      (∀ named, decode code = .error (.unknownTag named) ↔
        named = code ∧ (code < -1 ∨ 0 ≤ code ∧ ¬BothSet code ∧ 8 < unmarked code)) ∧
      ((∃ marked, decode code = .ok marked) ↔
        ¬(0 ≤ code ∧ BothSet code) ∧
        ¬(code < -1 ∨ 0 ≤ code ∧ ¬BothSet code ∧ 8 < unmarked code))) ∧
    ∀ marked : Marked,
      decode marked.encode =
        .ok (if marked.tag = .undefined then ⟨.undefined, none⟩ else marked) := by
  refine ⟨fun code => ⟨?_, ?_, ?_, ?_, ?_⟩, decode_encode⟩
  · exact fun marked => encode_of_decode
  · intro other marked hcode hother
    rw [← encode_of_decode hcode, ← encode_of_decode hother]
  · intro named
    rw [decode_eq_error_iff]
    simp
  · intro named
    rw [decode_eq_error_iff]
    simp [Unknown]
  · constructor
    · intro ⟨marked, hread⟩
      have hread' : ∀ error, decode code ≠ .error error := by simp [hread]
      simp only [ne_eq, decode_eq_error_iff] at hread'
      exact ⟨fun hconflict => hread' _ (.inl ⟨rfl, hconflict⟩),
        fun hunknown => hread' _ (.inr ⟨rfl, hunknown⟩)⟩
    · intro ⟨hconflict, hunknown⟩
      obtain ⟨marked, hread, -⟩ := decode_of_known hconflict hunknown
      exact ⟨marked, hread⟩

/-- With both marks and too large a base code, a word is refused for its marks. -/
example :
    BothSet 0b1110000 ∧ 8 < unmarked 0b1110000 ∧
      decode 0b1110000 = .error (.conflictingMarks 0b1110000) :=
  ⟨by decide, by decide, rfl⟩

end Marked

end TagLang
