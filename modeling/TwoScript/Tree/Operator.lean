import TwoScript.Token.Kind

/-!
# Operators

The operators of expressions, the tokens that write them and how strongly they bind.
-/

namespace TwoScript

inductive BinaryOp where
  | add
  | subtract
  | multiply
  | divide
  | modulo
  | equal
  | notEqual
  | less
  | lessEqual
  | greater
  | greaterEqual
  | and
  | or
  | bitAnd
  | bitOr
  | bitXor
  | shiftLeft
  | shiftRight
deriving DecidableEq, Repr

/-- Plain and compound assignment. -/
inductive AssignOp where
  | assign
  | addAssign
  | subtractAssign
  | multiplyAssign
  | divideAssign
  | moduloAssign
deriving DecidableEq, Repr

inductive UnaryOp where
  | not
  | negate
  | bitNot
deriving DecidableEq, Repr

namespace BinaryOp

def all : List BinaryOp :=
  [add, subtract, multiply, divide, modulo, equal, notEqual, less, lessEqual, greater,
   greaterEqual, and, or, bitAnd, bitOr, bitXor, shiftLeft, shiftRight]

def symbol : BinaryOp → String
  | add => "+"
  | subtract => "-"
  | multiply => "*"
  | divide => "/"
  | modulo => "%"
  | equal => "=="
  | notEqual => "!="
  | less => "<"
  | lessEqual => "<="
  | greater => ">"
  | greaterEqual => ">="
  | and => "&&"
  | or => "||"
  | bitAnd => "&"
  | bitOr => "|"
  | bitXor => "^"
  | shiftLeft => "<<"
  | shiftRight => ">>"

def ofKind? : Kind → Option BinaryOp
  | .plus => some add
  | .minus => some subtract
  | .star => some multiply
  | .slash => some divide
  | .percent => some modulo
  | .equalEqual => some equal
  | .bangEqual => some notEqual
  | .less => some less
  | .lessEqual => some lessEqual
  | .greater => some greater
  | .greaterEqual => some greaterEqual
  | .andAnd => some and
  | .orOr => some or
  | .ampersand => some bitAnd
  | .pipe => some bitOr
  | .caret => some bitXor
  | .shiftLeft => some shiftLeft
  | .shiftRight => some shiftRight
  | _ => none

end BinaryOp

namespace AssignOp

def all : List AssignOp :=
  [assign, addAssign, subtractAssign, multiplyAssign, divideAssign, moduloAssign]

def symbol : AssignOp → String
  | assign => "="
  | addAssign => "+="
  | subtractAssign => "-="
  | multiplyAssign => "*="
  | divideAssign => "/="
  | moduloAssign => "%="

def ofKind? : Kind → Option AssignOp
  | .equal => some assign
  | .plusEqual => some addAssign
  | .minusEqual => some subtractAssign
  | .starEqual => some multiplyAssign
  | .slashEqual => some divideAssign
  | .percentEqual => some moduloAssign
  | _ => none

end AssignOp

namespace UnaryOp

def all : List UnaryOp :=
  [not, negate, bitNot]

def symbol : UnaryOp → String
  | not => "!"
  | negate => "-"
  | bitNot => "~"

def ofKind? : Kind → Option UnaryOp
  | .bang => some not
  | .minus => some negate
  | .tilde => some bitNot
  | _ => none

end UnaryOp

/-- How strongly an operator binds, from the loosest to the tightest. -/
inductive Precedence where
  | lowest
  | assignment
  | or
  | and
  | bitOr
  | bitXor
  | bitAnd
  | shift
  | equality
  | relational
  | additive
  | multiplicative
  | unary
  | postfixed
deriving DecidableEq, Repr

namespace Precedence

def rank : Precedence → Nat
  | lowest => 0
  | assignment => 1
  | or => 2
  | and => 3
  | bitOr => 4
  | bitXor => 5
  | bitAnd => 6
  | shift => 7
  | equality => 8
  | relational => 9
  | additive => 10
  | multiplicative => 11
  | unary => 12
  | postfixed => 13

instance : LT Precedence := ⟨fun p q => p.rank < q.rank⟩

instance : LE Precedence := ⟨fun p q => p.rank ≤ q.rank⟩

instance (p q : Precedence) : Decidable (p < q) :=
  inferInstanceAs (Decidable (p.rank < q.rank))

instance (p q : Precedence) : Decidable (p ≤ q) :=
  inferInstanceAs (Decidable (p.rank ≤ q.rank))

/-- How strongly a token binds the expression in front of it. A token that does not
continue an expression binds least. -/
def ofKind : Kind → Precedence
  | .equal | .plusEqual | .minusEqual | .starEqual | .slashEqual | .percentEqual => assignment
  | .orOr => or
  | .andAnd => and
  | .pipe => bitOr
  | .caret => bitXor
  | .ampersand => bitAnd
  | .shiftLeft | .shiftRight => shift
  | .equalEqual | .bangEqual => equality
  | .less | .lessEqual | .greater | .greaterEqual => relational
  | .plus | .minus => additive
  | .star | .slash | .percent => multiplicative
  | .leftParen | .dot => postfixed
  | _ => lowest

end Precedence

end TwoScript
