import TwoScript.Token.Basic
import TwoScript.Tree.Operator

/-!
# Trees

A program is a list of statements. Statements and expressions carry the span of the
text they were read from; a statement that could not be read is kept as a `failed`
placeholder.
-/

namespace TwoScript

mutual

/-- An expression. `select` picks an arm by the value of its subject, and `template` is
text with expressions in it. -/
inductive Expr where
  | literal (span : Span) (value : Literal)
  | ident (span : Span) (name : String)
  | assign (span : Span) (op : AssignOp) (target value : Expr)
  | binary (span : Span) (op : BinaryOp) (left right : Expr)
  | unary (span : Span) (op : UnaryOp) (operand : Expr)
  | group (span : Span) (inner : Expr)
  | call (span : Span) (callee : Expr) (args : List Expr)
  | member (span : Span) (object : Expr) (property : String)
  | await (span : Span) (operand : Expr)
  | select (span : Span) (subject : Expr) (arms : List Arm)
  | template (span : Span) (parts : List Part)

/-- An arm of a selection. It is taken when the subject equals the pattern; without a
pattern, when no other arm is. -/
structure Arm where
  pattern : Option Expr
  body : Statement

inductive Part where
  | text (text : String)
  | expr (expr : Expr)

inductive Statement where
  | function (span : Span) (routine : Routine)
  | classDecl (span : Span) (name : String) (methods : List Routine)
  | declare (span : Span) (constant : Bool) (name : String) (type : Option String)
      (initial : Option Expr)
  | conditional (span : Span) (condition : Expr) (body : List Statement)
      (otherwise : Option Statement)
  | attempt (span : Span) (body : List Statement) (handler : Option Handler)
      (cleanup : Option (List Statement))
  | returning (span : Span) (value : Option Expr)
  | block (span : Span) (body : List Statement)
  | expression (span : Span) (value : Expr)
  | failed (span : Span)

/-- A function or a method. -/
structure Routine where
  name : String
  params : List Parameter
  returns : Option String
  body : List Statement
  async : Bool

structure Parameter where
  name : String
  type : Option String
  default : Option Expr

/-- What to do with a caught value, which may be given a name. -/
structure Handler where
  binding : Option String
  body : List Statement

end

instance : Inhabited Expr := ⟨.literal default .null⟩

instance : Inhabited Statement := ⟨.failed default⟩

namespace Expr

def span : Expr → Span
  | literal s _ | ident s _ | assign s _ _ _ | binary s _ _ _ | unary s _ _ | group s _
  | call s _ _ | member s _ _ | await s _ | select s _ _ | template s _ => s

/-- The expression inside one pair of parentheses, or the expression itself. -/
def ungrouped : Expr → Expr
  | group _ inner => inner
  | e => e

def isAssignable : Expr → Bool
  | ident _ _ | member _ _ _ => true
  | _ => false

end Expr

namespace Statement

def span : Statement → Span
  | function s _ | classDecl s _ _ | declare s _ _ _ _ | conditional s _ _ _
  | attempt s _ _ _ | returning s _ | block s _ | expression s _ | failed s => s

end Statement

end TwoScript
