import TagLang.Tag

/-!
# Marked tags and their code words

The result of an operator carries a mark beside its tag: logical, relational or
none.  Tag and mark are stored together in one 32-bit code word.  The tags other
than `undefined` have the codes `0` to `8`; bit 4 is the logical mark and bit 5
the relational one; the word `-1` is `undefined`, which carries no mark.

`encode` and `decode` are the two directions, and `CodeError` lists what a word,
or a record of words, can lack.
-/

namespace TagLang

/-- The mark that an operator leaves on its result. -/
inductive Mark where
  | logical
  | relational
  deriving DecidableEq, Repr

/-- A tag with an optional mark. -/
structure Marked where
  tag : Tag
  mark : Option Mark
  deriving DecidableEq, Repr

/-- Why a code word, or a record of code words, has no meaning. -/
inductive CodeError where
  | unknownTag (code : Int32)
  | conflictingMarks (code : Int32)
  | missingArity
  | missingResult
  deriving DecidableEq, Repr

/-- The digits of a number in base two, most significant first. -/
def binaryDigits (n : Nat) : String :=
  String.ofList (Nat.toDigits 2 n)

/-- The message of a decoding error. -/
def CodeError.message : CodeError → String
  | unknownTag code => s!"unknown type tag {code.toInt}"
  | conflictingMarks code =>
    s!"type tag 0b{binaryDigits code.toInt.toNat} carries both the logical and the relational flag"
  | missingArity => "function record has no parameter count"
  | missingResult => "function record has no return type"

namespace Mark

/-- The name of a mark. -/
def name : Mark → String
  | logical => "logical"
  | relational => "relational"

/-- The value of the mark's bit in a code word. -/
def bit : Mark → Nat
  | logical => 16
  | relational => 32

end Mark

/-- The code of a tag without its mark; `undefined` has none. -/
def Tag.baseCode? : Tag → Option Nat
  | .undefined => none
  | .function => some 0
  | .int => some 1
  | .str => some 2
  | .intOrStr => some 3
  | .bool => some 4
  | .intOrBool => some 5
  | .strOrBool => some 6
  | .any => some 7
  | .arith => some 8

/-- The tag with the given code. -/
def Tag.ofBaseCode? : Nat → Option Tag
  | 0 => some .function
  | 1 => some .int
  | 2 => some .str
  | 3 => some .intOrStr
  | 4 => some .bool
  | 5 => some .intOrBool
  | 6 => some .strOrBool
  | 7 => some .any
  | 8 => some .arith
  | _ => none

namespace Marked

/-- The tag, followed by the mark in parentheses. -/
def text (marked : Marked) : String :=
  match marked.mark with
  | none => marked.tag.name
  | some mark => s!"{marked.tag.name} ({mark.name})"

/-- The code word of a marked tag.  The mark of `undefined` is dropped. -/
def encode (marked : Marked) : Int32 :=
  match marked.tag.baseCode? with
  | none => -1
  | some base => Int32.ofNat (base + (marked.mark.map Mark.bit).getD 0)

/-- What is left of a nonnegative code word when bits 4 and 5 are cleared. -/
def baseOfWord (word : Nat) : Nat :=
  word % 16 + word / 64 * 64

/-- Reads a code word.  Two marks at once are refused before the tag is looked
at. -/
def decode (code : Int32) : Except CodeError Marked :=
  if code = -1 then .ok ⟨.undefined, none⟩
  else if code < 0 then .error (.unknownTag code)
  else
    let word := code.toInt.toNat
    match word.testBit 4, word.testBit 5, Tag.ofBaseCode? (baseOfWord word) with
    | true, true, _ => .error (.conflictingMarks code)
    | _, _, none => .error (.unknownTag code)
    | true, false, some tag => .ok ⟨tag, some .logical⟩
    | false, true, some tag => .ok ⟨tag, some .relational⟩
    | false, false, some tag => .ok ⟨tag, none⟩

end Marked

end TagLang
