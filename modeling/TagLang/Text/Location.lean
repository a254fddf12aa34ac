/-!
# Locations in a text

Where a character stands: its line and its column, both counted from one.  A
line ends after a terminator, and a carriage return followed by a line feed is
one terminator.  A final terminator starts no further line.
-/

namespace TagLang.Text

/-- A line and a column, both counted from one. -/
structure Location where
  line : Nat
  column : Nat
  deriving DecidableEq, Repr

/-- How a location is printed. -/
def Location.text (location : Location) : String :=
  s!"{location.line}:{location.column}"

/-- What is no digit does not stand in a printed number. -/
theorem not_mem_toDigits {c : Char} (hc : c.isDigit = false) (n : Nat) :
    c ∉ Nat.toDigits 10 n := by
  intro hmem
  have hdigit := Nat.isDigit_of_mem_toDigits (by decide) (by decide) hmem
  rw [hc] at hdigit
  contradiction

/-- The characters that end a line. -/
def isTerminator (c : Char) : Bool :=
  c = '\n' || c = '\r' || c = '\x0b' || c = '\x0c' || c = '\u0085' || c = '\u2028'
    || c = '\u2029'

/-- Whether a line ends after `c` when `rest` follows. -/
def endsLine (c : Char) (rest : List Char) : Bool :=
  isTerminator c && !(c = '\r' && rest.head? = some '\n')

/-- Walks `offset` characters into the text.  `line` is the line reached so far
and `column` the column in it.  A terminator at the very end of the text keeps
the position after it on the line that it ends. -/
def locateFrom (line column : Nat) : Nat → List Char → Option Location
  | 0, _ => some ⟨line, column⟩
  | _ + 1, [] => none
  | offset + 1, c :: rest =>
    if endsLine c rest && !rest.isEmpty then locateFrom (line + 1) 1 offset rest
    else locateFrom line (column + 1) offset rest

/-- The location of the character with the given offset, counted in characters
from the start of the text.  The end of the text has a location too. -/
def locate? (text : List Char) (offset : Nat) : Option Location :=
  locateFrom 1 1 offset text

end TagLang.Text
