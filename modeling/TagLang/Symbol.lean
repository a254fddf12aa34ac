import TagLang.Tag.Marked

/-!
# Symbols

What a declared name stands for: a value of some tag, or a function with its
signature.  A signature knows the tags of its parameters only when every one of
them has an ascription; otherwise it knows how many there are.

Symbols are also stored as records of three code words, which `Symbol.decode`
reads.
-/

namespace TagLang

/-- What is known of the parameters of a function. -/
inductive Parameters where
  /-- Only how many there are. -/
  | counted (count : Nat)
  /-- The tag of each one. -/
  | tagged (tags : List Tag)
  deriving DecidableEq, Repr

/-- The parameters and the result of a function. -/
structure Signature where
  parameters : Parameters
  result : Tag
  deriving DecidableEq, Repr

/-- What a name stands for. -/
inductive Symbol where
  | value (kind : Tag)
  | function (signature : Signature)
  deriving DecidableEq, Repr

namespace Parameters

/-- How many parameters there are. -/
def count : Parameters → Nat
  | counted n => n
  | tagged tags => tags.length

/-- The tags of the parameters, when each one is known. -/
def tags? : Parameters → Option (List Tag)
  | counted _ => none
  | tagged tags => some tags

end Parameters

namespace Symbol

/-- A value symbol.  Functions have a signature, so `function` is refused as the
tag of a value. -/
def ofValue? : Tag → Option Symbol
  | .function => none
  | kind => some (value kind)

/-- The tag of the symbol itself. -/
def kind : Symbol → Tag
  | value kind => kind
  | function _ => .function

/-- The signature of a function. -/
def signature? : Symbol → Option Signature
  | value _ => none
  | function signature => some signature

/-- Whether the symbol has a signature. -/
def isFunction (symbol : Symbol) : Bool :=
  symbol.signature?.isSome

/-- The number of parameters of a function. -/
def arity? (symbol : Symbol) : Option Nat :=
  symbol.signature?.map (·.parameters.count)

/-- The tag of a function's result. -/
def result? (symbol : Symbol) : Option Tag :=
  symbol.signature?.map (·.result)

/-- The tags of a function's parameters, when each one is known. -/
def parameterTags? (symbol : Symbol) : Option (List Tag) :=
  symbol.signature?.bind (·.parameters.tags?)

/-- How the symbol is written in messages. -/
def text : Symbol → String
  | value kind => kind.name
  | function ⟨.counted n, result⟩ => s!"fn/{n} -> {result.name}"
  | function ⟨.tagged tags, result⟩ =>
    "fn(" ++ ", ".intercalate (tags.map Tag.name) ++ ") -> " ++ result.name

/-- Reads a record of three code words: the tag of the symbol and, for a
function, its parameter count and the tag of its result.  The word `-1` stands
for an absent result, and a negative count for an absent one.  A value ignores
the last two words. -/
def decode (kind arity result : Int32) : Except CodeError Symbol :=
  match Marked.decode kind with
  | .error e => .error e
  | .ok ⟨.function, _⟩ =>
    if arity < 0 then .error .missingArity
    else if result = -1 then .error .missingResult
    else
      match Marked.decode result with
      | .error e => .error e
      | .ok marked => .ok (function ⟨.counted arity.toInt.toNat, marked.tag⟩)
  | .ok ⟨kind, _⟩ => .ok (value kind)

end Symbol

end TagLang
