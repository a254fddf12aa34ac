import TagLang.Tag

/-!
# Base types

The four type names that an ascription can be made of.
-/

namespace TagLang

/-- A type name that can be written in a program. -/
inductive Base where
  | int
  | str
  | bool
  | any
  deriving DecidableEq, Repr

namespace Base

/-- How the type is written. -/
def name : Base → String
  | int => "int"
  | str => "str"
  | bool => "bool"
  | any => "any"

/-- The tag that the name stands for. -/
def tag : Base → Tag
  | int => .int
  | str => .str
  | bool => .bool
  | any => .any

end Base

end TagLang
