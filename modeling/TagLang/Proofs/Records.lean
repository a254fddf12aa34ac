import TagLang.Proofs.CodeWords
import TagLang.Symbol

/-!
# Records of symbols

A symbol is stored as a record of three code words, and every record has an answer: a symbol,
or the first error in a fixed order.

* `Symbol.Coherent` says that the tag `function`, a signature and the parts of a signature come
  together.  One symbol does not have it, a value with the tag `function`
  (`Symbol.coherent_iff`), and `Symbol.ofValue?` refuses to build that one.
* `Symbol.decodeGuarded` reads a record and builds values with `Symbol.ofValue?`, so it has no
  answer where that one would be built.  `Symbol.decodeGuarded_eq` shows that it always has the
  answer of `Symbol.decode`.

`Symbol.decode_record` puts them together with the order of the errors.
-/

namespace TagLang.Symbol

variable {symbol : Symbol} {tag : Tag}

/-! ## Coherent symbols -/

/-- The tag `function`, a signature, its number of parameters and its result come together, and
the tags of the parameters are as many as the number says. -/
structure Coherent (symbol : Symbol) : Prop where
  kind_iff : symbol.kind = .function ↔ symbol.signature?.isSome
  arity_iff : symbol.arity?.isSome ↔ symbol.signature?.isSome
  result_iff : symbol.result?.isSome ↔ symbol.signature?.isSome
  length_eq : ∀ tags, symbol.parameterTags? = some tags → symbol.arity? = some tags.length

theorem coherent_function (signature : Signature) : (function signature).Coherent := by
  refine ⟨by simp [kind, signature?], by simp [arity?, signature?], by simp [result?, signature?],
    ?_⟩
  intro tags htags
  obtain ⟨parameters, result⟩ := signature
  cases parameters with
  | counted count => contradiction
  | tagged known =>
    cases htags
    rfl

/-- The only symbol that is not coherent is a value with the tag `function`. -/
theorem coherent_iff : symbol.Coherent ↔ symbol ≠ value .function := by
  cases symbol with
  | function signature => simp [coherent_function]
  | value tag =>
    constructor
    · intro h heq
      rw [heq] at h
      exact absurd (h.kind_iff.1 rfl) (by decide)
    · intro hne
      have htag : tag ≠ .function := fun heq => hne (by rw [heq])
      refine ⟨by simp [kind, signature?, htag], by simp [arity?, signature?],
        by simp [result?, signature?], ?_⟩
      intro tags htags
      contradiction

theorem coherent_value (h : tag ≠ .function) : (value tag).Coherent :=
  coherent_iff.2 fun heq => h (value.inj heq)

theorem ofValue?_of_ne (h : tag ≠ .function) : ofValue? tag = some (value tag) := by
  unfold ofValue?
  split
  · contradiction
  · rfl

/-! ## Reading a record -/

/-- Reads a record one step at a time.  There is no answer where a value with the tag `function`
would be built. -/
def decodeGuarded (kind arity result : Int32) : Option (Except CodeError Symbol) :=
  match Marked.decode kind with
  | .error error => some (.error error)
  | .ok marked =>
    if marked.tag ≠ .function then (ofValue? marked.tag).map .ok
    else if arity = -1 then some (.error .missingArity)
    else
      match arity.toInt.toNat? with
      | none => some (.error .missingArity)
      | some count =>
        if result = -1 then some (.error .missingResult)
        else
          match Marked.decode result with
          | .error error => some (.error error)
          | .ok returned => some (.ok (function ⟨.counted count, returned.tag⟩))

variable {kind arity result : Int32} {marked : Marked} {error : CodeError}

theorem decode_of_error (h : Marked.decode kind = .error error) :
    decode kind arity result = .error error := by
  rw [decode, h]

theorem decode_of_value (h : Marked.decode kind = .ok marked) (htag : marked.tag ≠ .function) :
    decode kind arity result = .ok (value marked.tag) := by
  obtain ⟨tag, mark⟩ := marked
  unfold decode
  rw [h]
  split
  · contradiction
  · rename_i heq
    cases heq
    contradiction
  · rename_i heq
    cases heq
    rfl

/-- For a function, the count is looked at before the result. -/
theorem decode_of_function (h : Marked.decode kind = .ok marked) (htag : marked.tag = .function) :
    decode kind arity result =
      if arity < 0 then .error .missingArity
      else if result = -1 then .error .missingResult
      else (Marked.decode result).map fun returned =>
        function ⟨.counted arity.toInt.toNat, returned.tag⟩ := by
  obtain ⟨tag, mark⟩ := marked
  cases htag
  rw [decode, h]
  cases Marked.decode result <;> rfl

theorem toNat?_toInt (arity : Int32) :
    arity.toInt.toNat? = if arity < 0 then none else some arity.toInt.toNat := by
  have hzero : (0 : Int32).toInt = 0 := by decide
  simp only [Int32.lt_iff_toInt_lt, hzero]
  cases arity.toInt with
  | ofNat count => simp [Int.toNat?]
  | negSucc count => simp [Int.toNat?]

/-- No value with the tag `function` is built, and the conversion of the count fails only where
it is missing. -/
theorem decodeGuarded_eq (kind arity result : Int32) :
    decodeGuarded kind arity result = some (decode kind arity result) := by
  unfold decodeGuarded
  cases hkind : Marked.decode kind with
  | error error => rw [decode_of_error hkind]
  | ok marked =>
    by_cases htag : marked.tag = .function
    · rw [decode_of_function hkind htag]
      simp only [htag, toNat?_toInt]
      by_cases hneg : arity < 0
      · simp [hneg]
      · have hne : arity ≠ -1 := by
          intro heq
          rw [heq] at hneg
          exact hneg (by decide)
        by_cases hmissing : result = -1
        · simp [hneg, hne, hmissing]
        · cases hresult : Marked.decode result <;> simp [hneg, hne, hmissing, Except.map]
    · rw [decode_of_value hkind htag]
      simp [htag, ofValue?_of_ne htag]

/-- What is read is coherent. -/
theorem coherent_of_decode (h : decode kind arity result = .ok symbol) : symbol.Coherent := by
  cases hkind : Marked.decode kind with
  | error error =>
    rw [decode_of_error hkind] at h
    contradiction
  | ok marked =>
    by_cases htag : marked.tag = .function
    · rw [decode_of_function hkind htag] at h
      split at h
      · contradiction
      split at h
      · contradiction
      cases hresult : Marked.decode result with
      | error error =>
        rw [hresult] at h
        contradiction
      | ok returned =>
        rw [hresult] at h
        cases h
        exact coherent_function _
    · rw [decode_of_value hkind htag] at h
      cases h
      exact coherent_value htag

/-- The errors of a function, in their order. -/
theorem decode_function_eq_error_iff (h : Marked.decode kind = .ok marked)
    (htag : marked.tag = .function) :
    decode kind arity result = .error error ↔
      arity < 0 ∧ error = .missingArity ∨
      0 ≤ arity ∧ result = -1 ∧ error = .missingResult ∨
      0 ≤ arity ∧ result ≠ -1 ∧ Marked.decode result = .error error := by
  rw [decode_of_function h htag]
  by_cases hneg : arity < 0
  · have hnonneg : ¬0 ≤ arity := Int32.not_le.2 hneg
    simp [hneg, hnonneg, eq_comm]
  · have hnonneg : 0 ≤ arity := Int32.not_lt.1 hneg
    by_cases hmissing : result = -1
    · simp [hneg, hnonneg, hmissing, eq_comm]
    · cases Marked.decode result <;> simp [hneg, hnonneg, hmissing, Except.map]

/-- What a record of three code words stands for.

Reading it never comes to build a value with the tag `function`.  The answer is the error of the
first word, if that has one.  The word of a tag other than `function` gives a value, whatever the
other two words are.  For a function the answer is that the count is missing if it is negative,
else that the result is missing if its word is `-1`, else the error of that word, if it has one,
and else the function with this count and this result.  Whatever is read is coherent, as are the
values and functions that can be built otherwise. -/
theorem decode_record (kind arity result : Int32) :
    decodeGuarded kind arity result = some (decode kind arity result) ∧
    (∀ error, Marked.decode kind = .error error → decode kind arity result = .error error) ∧
    (∀ marked, Marked.decode kind = .ok marked → marked.tag ≠ .function →
      decode kind arity result = .ok (value marked.tag)) ∧
    (∀ marked, Marked.decode kind = .ok marked → marked.tag = .function →
      (decode kind arity result = .error .missingArity ↔ arity < 0) ∧
      (0 ≤ arity → (decode kind arity result = .error .missingResult ↔ result = -1)) ∧
      (0 ≤ arity → result ≠ -1 →
        (∀ error, Marked.decode result = .error error →
          decode kind arity result = .error error) ∧
        ∀ returned, Marked.decode result = .ok returned →
          ∃ count : Nat, count = arity.toInt ∧
            decode kind arity result = .ok (function ⟨.counted count, returned.tag⟩))) ∧
    (∀ symbol, decode kind arity result = .ok symbol → symbol.Coherent) ∧
    (∀ tag, tag ≠ .function → ofValue? tag = some (value tag) ∧ (value tag).Coherent) ∧
    ∀ signature, (function signature).Coherent := by
  refine ⟨decodeGuarded_eq kind arity result, fun error => decode_of_error,
    fun marked => decode_of_value, ?_, fun symbol => coherent_of_decode,
    fun tag htag => ⟨ofValue?_of_ne htag, coherent_value htag⟩, coherent_function⟩
  intro marked hkind htag
  obtain ⟨hcounted, hreturning⟩ := Marked.decode_ne_missing result
  refine ⟨?_, ?_, ?_⟩
  · simp [decode_function_eq_error_iff hkind htag, hcounted]
  · intro harity
    simp [decode_function_eq_error_iff hkind htag, hreturning, harity]
  · intro harity hresult
    constructor
    · intro error herror
      exact (decode_function_eq_error_iff hkind htag).2 (.inr (.inr ⟨harity, hresult, herror⟩))
    · intro returned hreturned
      have hcount : 0 ≤ arity.toInt := Int32.le_iff_toInt_le.1 harity
      refine ⟨arity.toInt.toNat, Int.toNat_of_nonneg hcount, ?_⟩
      rw [decode_of_function hkind htag, if_neg (Int32.not_lt.2 harity), if_neg hresult, hreturned]
      rfl

/-- The marks of both words are dropped. -/
example : decode 0b10000 2 0b100100 = .ok (function ⟨.counted 2, .bool⟩) := rfl

end TagLang.Symbol
