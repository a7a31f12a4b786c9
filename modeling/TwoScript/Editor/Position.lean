import TwoScript.Span

/-!
# Positions in an editor

Editors count lines from zero and columns in UTF-16 units. `positionAt` and
`offsetAt?` convert between byte offsets and such positions.
-/

namespace TwoScript

/-- A position in an editor: a line and a column, both counted from zero. -/
structure Position where
  line : Nat
  column : Nat
deriving DecidableEq, Repr, Inhabited

/-- The number of UTF-16 units that a character takes. -/
def unitSize (c : Char) : Nat :=
  if c.toNat < 0x10000 then 1 else 2

namespace Position

def first : Position := ⟨0, 0⟩

def after (p : Position) (c : Char) : Position :=
  if c = '\n' then ⟨p.line + 1, 0⟩ else ⟨p.line, p.column + unitSize c⟩

/-- The position that lies `bytes` bytes behind `p`, where the text `cs` stands. A point
inside a character counts as the end of that character. -/
def advance (p : Position) (bytes : Nat) : List Char → Position
  | [] => p
  | c :: cs => if bytes = 0 then p else (p.after c).advance (bytes - c.utf8Size) cs

/-- The offset of `target` in a text of which `cs` is left, at the position `p` and the
byte `offset`. A column past the end of its line is the end of the line. -/
def seek (target p : Position) (offset : Nat) : List Char → Option Nat
  | [] => if p.line = target.line then some offset else none
  | c :: cs =>
    if p.line = target.line ∧ (target.column ≤ p.column ∨ c = '\n') then some offset
    else target.seek (p.after c) (offset + c.utf8Size) cs

end Position

def positionAt (source : String) (offset : Nat) : Position :=
  Position.first.advance offset source.toList

/-- The byte offset of a position in a text, if the text has its line. -/
def offsetAt? (source : String) (p : Position) : Option Nat :=
  p.seek .first 0 source.toList

end TwoScript
