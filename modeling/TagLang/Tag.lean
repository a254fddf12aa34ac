/-!
# Type tags

A tag is the type of an expression, as far as the language tells types apart.
There are three base types, the three unions of two of them, a tag that is
compatible with everything, a tag for functions, a constraint for operands of
arithmetic, and the tag of an expression that is already known to be wrong.

A tag is seen through its members: `members` lists them, and `ofMembers?` finds
the tag that has exactly the given ones.
-/

namespace TagLang

/-- The closed set of type tags. -/
inductive Tag where
  /-- The tag of an expression with a reported error. -/
  | undefined
  | function
  | int
  | str
  | intOrStr
  | bool
  | intOrBool
  | strOrBool
  /-- Compatible with every tag. -/
  | any
  /-- What arithmetic accepts.  It constrains operands and is never inferred. -/
  | arith
  deriving DecidableEq, Repr, Inhabited

namespace Tag

/-- Every tag, in the order of the code words. -/
def all : List Tag :=
  [undefined, function, int, str, intOrStr, bool, intOrBool, strOrBool, any, arith]

/-- The name that messages use. -/
def name : Tag → String
  | undefined => "undefined"
  | function => "function"
  | int => "int"
  | str => "str"
  | intOrStr => "int|str"
  | bool => "bool"
  | intOrBool => "int|bool"
  | strOrBool => "str|bool"
  | any => "any"
  | arith => "arith"

/-- The tag with the given name. -/
def ofName? (text : String) : Option Tag :=
  all.find? fun tag => tag.name == text

/-- The members of a tag.  A union has two, `arith` has only `int`, and every
other tag is its own member. -/
def members : Tag → List Tag
  | intOrStr => [int, str]
  | intOrBool => [int, bool]
  | strOrBool => [str, bool]
  | arith => [int]
  | tag => [tag]

/-- Membership in `members`. -/
def hasMember (tag member : Tag) : Bool :=
  tag.members.contains member

/-- The unions of two base types. -/
def isUnion : Tag → Bool
  | intOrStr | intOrBool | strOrBool => true
  | _ => false

/-- The base types. -/
def isConcrete : Tag → Bool
  | int | str | bool => true
  | _ => false

/-- The tag whose members are exactly the listed ones; repetitions do not count.
No tag stands for all three base types, nor for none, and a tag that is not a
base type stands only for itself. -/
def ofMembers? (members : List Tag) : Option Tag :=
  if members.all isConcrete then
    match members.contains int, members.contains str, members.contains bool with
    | true, false, false => some int
    | false, true, false => some str
    | false, false, true => some bool
    | true, true, false => some intOrStr
    | true, false, true => some intOrBool
    | false, true, true => some strOrBool
    | _, _, _ => none
  else
    members.head?.filter fun first => members.all (· == first)

end Tag

end TagLang
