import TwoScript.Proofs.Tree.Every

/-!
# The ladder of precedences

`Expr.Laddered` is the condition that a tree of operators can be written down without
parentheses: what stands next to an operator binds at least as tight as the operator
does. For proofs the condition is split in two numbers of an operand: `head`, the
precedence of its loosest operator seen from the left, and `tail`, the precedence
that an operator behind it may have at most.
-/

namespace TwoScript

namespace BinaryOp

def precedence : BinaryOp → Precedence
  | or => .or
  | and => .and
  | bitOr => .bitOr
  | bitXor => .bitXor
  | bitAnd => .bitAnd
  | shiftLeft | shiftRight => .shift
  | equal | notEqual => .equality
  | less | lessEqual | greater | greaterEqual => .relational
  | add | subtract => .additive
  | multiply | divide | modulo => .multiplicative

theorem precedence_of_kind {kind : Kind} {op : BinaryOp} (h : ofKind? kind = some op) :
    Precedence.ofKind kind = op.precedence := by
  cases kind <;> simp only [ofKind?, Option.some.injEq, reduceCtorEq] at h <;> subst h <;> rfl

end BinaryOp

theorem AssignOp.precedence_of_kind {kind : Kind} {op : AssignOp}
    (h : AssignOp.ofKind? kind = some op) : Precedence.ofKind kind = .assignment := by
  cases kind <;> simp [AssignOp.ofKind?] at h <;> rfl

namespace Precedence

theorem le_def {p q : Precedence} : p ≤ q ↔ p.rank ≤ q.rank := Iff.rfl

theorem lt_def {p q : Precedence} : p < q ↔ p.rank < q.rank := Iff.rfl

theorem not_le {p q : Precedence} : ¬p ≤ q ↔ q < p := by
  simp [le_def, lt_def]

theorem le_postfixed (p : Precedence) : p ≤ .postfixed := by
  cases p <;> decide

theorem le_lowest {p : Precedence} (h : p ≤ .lowest) : p = .lowest := by
  cases p <;> first | rfl | exact absurd h (by decide)

end Precedence

namespace Expr

def isBinary : Expr → Bool
  | binary _ _ _ _ => true
  | _ => false

def isAssignment : Expr → Bool
  | assign _ _ _ _ => true
  | _ => false

def isPrefixed : Expr → Bool
  | unary _ _ _ | await _ _ => true
  | _ => false

def RootOperator (p : BinaryOp → Prop) : Expr → Prop
  | binary _ op _ _ => p op
  | _ => True

/-- What the operands of a node may be, for the node to be read back without parentheses. -/
def Laddered : Expr → Prop
  | binary _ op left right =>
    (left.isAssignment = false ∧ left.RootOperator (op.precedence ≤ ·.precedence)) ∧
      (right.isAssignment = false ∧ right.RootOperator (op.precedence < ·.precedence))
  | unary _ _ operand | await _ operand =>
    operand.isBinary = false ∧ operand.isAssignment = false
  | call _ callee _ =>
    callee.isBinary = false ∧ callee.isAssignment = false ∧ callee.isPrefixed = false
  | member _ object _ =>
    object.isBinary = false ∧ object.isAssignment = false ∧ object.isPrefixed = false
  | assign _ _ target _ => target.isAssignable = true
  | _ => True

/-- The precedence of the loosest operator of an expression. -/
def head : Expr → Precedence
  | binary _ op _ _ => op.precedence
  | assign _ _ _ _ => .assignment
  | _ => .postfixed

/-- The greatest precedence of an operator that can follow an expression without taking
away its last operand. -/
def tail : Expr → Precedence
  | binary _ op _ _ => op.precedence
  | assign _ _ _ _ => .lowest
  | unary _ _ _ | await _ _ => .unary
  | _ => .postfixed

/-- An operator can follow what is no assignment and has no looser operator at its root. -/
theorem precedence_le_tail {op : BinaryOp} {left : Expr} : op.precedence ≤ left.tail ↔
    left.isAssignment = false ∧ left.RootOperator (op.precedence ≤ ·.precedence) := by
  have tight : op.precedence ≤ .unary ∧ ¬op.precedence ≤ .lowest := by cases op <;> decide
  have loose := Precedence.le_postfixed op.precedence
  cases left <;> simp [tail, isAssignment, RootOperator, tight, loose]

/-- An operator can stand in front of what is no assignment and has a tighter operator at its
root, if it has one. -/
theorem precedence_lt_head {op : BinaryOp} {right : Expr} : op.precedence < right.head ↔
    right.isAssignment = false ∧ right.RootOperator (op.precedence < ·.precedence) := by
  have tight : op.precedence < .postfixed ∧ ¬op.precedence < .assignment := by
    cases op <;> decide
  cases right <;> simp [head, isAssignment, RootOperator, tight]

theorem laddered_binary {s : Span} {op : BinaryOp} {left right : Expr} :
    (binary s op left right).Laddered ↔
      op.precedence ≤ left.tail ∧ op.precedence < right.head :=
  and_congr precedence_le_tail.symm precedence_lt_head.symm

theorem laddered_unary {s : Span} {op : UnaryOp} {operand : Expr} :
    (unary s op operand).Laddered ↔ .unary < operand.head := by
  cases operand with
  | binary _ op _ _ => cases op <;> simp [Laddered, head, isBinary] <;> decide
  | assign _ _ _ _ => simp [Laddered, head, isBinary, isAssignment]; decide
  | _ => simp [Laddered, head, isBinary, isAssignment]; decide

theorem laddered_await {s : Span} {operand : Expr} :
    (await s operand).Laddered ↔ .unary < operand.head :=
  @laddered_unary s .not operand

theorem laddered_call {s : Span} {callee : Expr} {args : List Expr} :
    (call s callee args).Laddered ↔ .postfixed ≤ callee.tail := by
  cases callee with
  | binary _ op _ _ => cases op <;> simp [Laddered, tail, isBinary] <;> decide
  | _ => simp [Laddered, tail, isBinary, isAssignment, isPrefixed]; decide

theorem laddered_member {s : Span} {object : Expr} {property : String} :
    (member s object property).Laddered ↔ .postfixed ≤ object.tail :=
  @laddered_call s object []

/-- An operator looser than an expression can follow it. -/
theorem le_tail_of_lt_head {p : Precedence} {e : Expr} (h : p < e.head) : p ≤ e.tail := by
  cases e <;> simp only [head, tail] at * <;> revert h <;> cases p <;> first | decide | skip
  all_goals simp only [Precedence.lt_def, Precedence.le_def]; omega

end Expr

end TwoScript
