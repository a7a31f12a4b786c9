import TwoScript.Parse.Parser
import TwoScript.Token.Tokenize
import TwoScript.Tree.Height

/-!
# Reading expressions

Every parser here works at one nesting level and is given the grammar of the level
below, with which it reads the statements and expressions inside its own. An
expression is read as its first operand followed by operators that bind tighter than
the place it stands in.
-/

namespace TwoScript

/-- What can be read at one nesting level: a statement, or an expression whose operators
bind tighter than the given precedence. -/
structure Grammar where
  statement : Parser Statement
  expression : Precedence → Parser Expr

namespace Grammar

variable (g : Grammar)

open TwoScript.Parser

/-! ## Blocks -/

def block : Parser (List Statement) := do
  discard (expect .leftBrace .blockOpen)
  let body ← items g.statement
  discard (expect .rightBrace .blockClose)
  return body

def blockStatement : Parser Statement := do
  let start ← here
  let body ← g.block
  return .block (← spanFrom start) body

/-! ## Primary expressions -/

def literal : Parser Expr := do
  let t ← advance
  match t.literal with
  | some value => return .literal t.span value
  | none => throw (.noLiteral t.text t.span)

def ident : Parser Expr := do
  let t ← advance
  return .ident t.span t.text

def group : Parser Expr := do
  let start ← here
  discard advance
  let inner ← g.expression .lowest
  discard (expect .rightParen .groupClose)
  return .group (← spanFrom start) inner

def unary (op : UnaryOp) : Parser Expr := do
  let start ← here
  discard advance
  let operand ← g.expression .unary
  return .unary (← spanFrom start) op operand

def await : Parser Expr := do
  let start ← here
  discard advance
  let operand ← g.expression .unary
  return .await (← spanFrom start) operand

/-! ## Selections -/

/-- The number behind a minus that began at `start`, as one literal. -/
def negatedLiteral (start : Span) : Parser Expr := do
  let number ← literal
  let span ← spanFrom start
  match number with
  | .literal _ (.number x) => return .literal span (.number x.negate)
  | _ => throw (.negatedNonNumber span)

def negatedNumber : Parser Expr := do
  let start ← here
  discard advance
  if ← sees .number then negatedLiteral start else unexpected .negatedNumber

def pattern : Parser Expr := do
  let t ← peek
  match t.kind with
  | .minus => negatedNumber
  | .number | .string | .trueWord | .falseWord | .nullWord => literal
  | _ => unexpected .pattern

def armPattern : Parser (Option Expr) := do
  if ← accept .defaultWord then return none else return some (← pattern)

def armValue : Parser Statement := do
  let value ← g.expression .lowest
  return .expression value.span value

def armBody : Parser Statement := do
  if ← sees .leftBrace then g.blockStatement else g.armValue

def armEnd : Parser Unit := do
  if ← accept .comma then return () else discard (accept .semicolon)

def arm : Parser Arm := do
  let pattern ← armPattern
  discard (expect .arrow .arrow)
  let body ← g.armBody
  armEnd
  return ⟨pattern, body⟩

/-- A selection. One pair of parentheses around its subject is dropped. -/
def selection : Parser Expr := do
  let start ← here
  discard advance
  let subject ← g.expression .lowest
  discard (expect .leftBrace .selectionOpen)
  let arms ← items g.arm
  discard (expect .rightBrace .selectionClose)
  return .select (← spanFrom start) subject.ungrouped arms

/-! ## Templates -/

/-- The expression that is the whole of a source inside a template. -/
def interpolation (place : Place) (source : List Char) : Except ParseError Expr :=
  match g.expression .lowest (Cursor.ofTokens (tokensFrom place source)) with
  | .error e _ => .error e
  | .ok e c => if c.atEnd then .ok e else .error (c.failure .endOfInterpolation)

def part : Segment → Except ParseError Part
  | .text chars => .ok (.text (String.ofList chars))
  | .source place chars => (g.interpolation place chars).map .expr

/-- The characters between the backticks of a template token, as far as its value has
kept them. -/
def templateBody (t : Token) : List Char :=
  match t.literal with
  | some (.string body) => body.toList
  | _ => []

/-- A template. Places inside it count from behind its opening backtick. -/
def template : Parser Expr := do
  let t ← advance
  let place : Place := ⟨t.span.start + 1, t.span.line⟩
  match (templateSegments place (templateBody t)).mapM g.part with
  | .ok parts => return .template t.span parts
  | .error e => throw (.interpolation e t.span)

/-! ## Operators -/

/-- The first operand of an expression, with the operators in front of it. -/
def operand : Parser Expr := do
  let t ← peek
  match t.kind with
  | .number | .string | .trueWord | .falseWord | .nullWord => literal
  | .template => g.template
  | .identifier => ident
  | .leftParen => g.group
  | .matchWord => g.selection
  | .bang => g.unary .not
  | .minus => g.unary .negate
  | .tilde => g.unary .bitNot
  | .awaitWord => g.await
  | .invalid _ | .endOfFile => unexpected .expression
  | _ => throw (.cannotStart t.text t.span)

/-- The name behind a dot. Words that are keywords elsewhere are names there. -/
def property : Parser String := do
  let t ← peek
  if t.kind = .identifier ∨ (keyword? t.text).isSome then
    discard advance
    return t.text
  else unexpected .propertyName

/-- The call of `callee`, from behind its opening parenthesis. -/
def callOf (callee : Expr) : Parser Expr := do
  let args ← separated .rightParen (g.expression .lowest)
  discard (expect .rightParen .argumentsClose)
  return .call (← spanFrom callee.span) callee args

def memberOf (object : Expr) : Parser Expr := do
  let property ← property
  return .member (← spanFrom object.span) object property

def assignmentTo (op : AssignOp) (target : Expr) : Parser Expr := do
  if target.isAssignable then
    let value ← g.expression .lowest
    return .assign (target.span.merge value.span) op target value
  else throw (.assignmentTarget target.span)

/-- The operation with `left` as its left operand, from behind its operator, whose right
operand binds tighter than `min`. -/
def operationOn (op : BinaryOp) (min : Precedence) (left : Expr) : Parser Expr := do
  let right ← g.expression min
  return .binary (left.span.merge right.span) op left right

/-- The expression that `left` makes with the operator behind it. -/
def continuation (left : Expr) : Parser Expr := do
  let t ← advance
  match t.kind with
  | .leftParen => g.callOf left
  | .dot => memberOf left
  | kind =>
    match AssignOp.ofKind? kind with
    | some op => g.assignmentTo op left
    | none =>
      match BinaryOp.ofKind? kind with
      | some op => g.operationOn op (Precedence.ofKind kind) left
      | none => throw (.unexpected .operator t.text t.span)

end Grammar

/-- The greatest height among the operands behind the operator of a continuation. -/
def Expr.trailingHeight : Expr → Nat
  | .binary _ _ _ right => right.height
  | .assign _ _ _ value => value.height
  | .call _ _ args => argsHeight args
  | _ => 0

structure Chain where
  expr : Expr
  height : Nat

namespace Grammar

variable (g : Grammar)

open TwoScript.Parser

/-- Continues a chain by one operator that binds tighter than `min`. A chain that grows
higher than `room` fails at that operator. -/
def extend (room : Nat) (min : Precedence) (chain : Chain) : Parser (Option Chain) := do
  let t ← peek
  if Precedence.ofKind t.kind ≤ min then return none
  else
    let expr ← g.continuation chain.expr
    let height := 1 + max chain.height expr.trailingHeight
    if room < height then throw (.tooDeep t.span)
    else return some ⟨expr, height⟩

/-- An expression whose operators bind tighter than `min`, with `room` levels below. -/
def chain (room : Nat) (min : Precedence) : Parser Expr := do
  let first ← g.operand
  let whole ← iterate (g.extend room min) ⟨first, first.height⟩
  return whole.expr

end Grammar

end TwoScript
