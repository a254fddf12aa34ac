import TagLang.Tag

/-!
# Order and meets of tags

Four questions about two tags: may a value of one stand where the other is
required (`accepts`), which member is left when a context restricts a tag
(`narrow`), which tag covers both (`join?`), and does one already cover the
other (`covers`).  None of them reports anything; callers decide what a negative
answer means.
-/

namespace TagLang.Tag

/-- Whether a value tagged `actual` may stand where `expected` is required.

`any` and `undefined` fit everywhere.  A union, and `arith`, accepts each of its
members, and a union may stand where one of its members is required. -/
def accepts (expected actual : Tag) : Bool :=
  expected == any || expected == undefined || actual == any || actual == undefined
    || expected == actual
    || (expected.isUnion || expected == arith) && expected.hasMember actual
    || actual.isUnion && actual.hasMember expected

/-- Restricts `tag` to what `context` allows.  The answer is `undefined` when the
two have no single common member. -/
def narrow (tag context : Tag) : Tag :=
  if tag = undefined ∨ context = undefined then undefined
  else if context = any ∨ tag = context then tag
  else if tag = any then context
  else
    match tag.members.filter context.hasMember with
    | [member] => member
    | _ => undefined

/-- The least tag that has the members of both, when there is one.  `undefined`
absorbs, and `any` covers everything else. -/
def join? (a b : Tag) : Option Tag :=
  if a = undefined ∨ b = undefined then some undefined
  else if a = b then some a
  else if a = any ∨ b = any then some any
  else ofMembers? (a.members ++ b.members)

/-- Whether `wider` already has every member of `narrower`. -/
def covers (wider narrower : Tag) : Bool :=
  wider.join? narrower == some wider

end TagLang.Tag
