import TwoScript.Parse.Expression

/-!
# Reading statements

The forms of statements at one nesting level, and `Grammar.ofRoom`, which stacks the
levels on each other.
-/

namespace TwoScript

namespace Grammar

variable (g : Grammar)

open TwoScript.Parser

/-! ## Variables -/

/-- A type: any name, or a word for null. -/
def typeName : Parser String := do
  let t ← peek
  if t.kind = .identifier ∨ t.kind = .nullWord then
    discard advance
    return t.text
  else unexpected .typeName

def typeAnnotation : Parser (Option String) :=
  optionally .colon typeName

/-- The initial value of a variable or a constant, which a constant needs. -/
def initialValue (constant : Bool) : Parser (Option Expr) := do
  if ← accept .equal then return some (← g.expression .lowest)
  else if constant then unexpected .constantValue
  else return none

def declaration : Parser Statement := do
  let t ← advance
  let constant := decide (t.kind ≠ .letWord)
  let name ← name .variableName
  let type ← typeAnnotation
  let initial ← g.initialValue constant
  discard (expect .semicolon .endOfDeclaration)
  return .declare (← spanFrom t.span) constant name type initial

/-! ## Routines and classes -/

/-- A parameter. Its default value is no assignment. -/
def parameter : Parser Parameter := do
  let name ← name .parameterName
  let type ← typeAnnotation
  let default ← optionally .equal (g.expression .assignment)
  return ⟨name, type, default⟩

def routine (async : Bool) : Parser Routine := do
  let name ← name .functionName
  discard (expect .leftParen .parametersOpen)
  let params ← separated .rightParen g.parameter
  discard (expect .rightParen .parametersClose)
  let returns ← optionally .arrow typeName
  let body ← g.block
  return ⟨name, params, returns, body, async⟩

def function (async : Bool) : Parser Routine := do
  discard (expect .functionWord .functionKeyword)
  g.routine async

def functionStatement : Parser Statement := do
  let start ← here
  let routine ← g.function false
  return .function (← spanFrom start) routine

def asyncStatement : Parser Statement := do
  let start ← here
  discard advance
  let routine ← g.function true
  return .function (← spanFrom start) routine

/-- A method, in which the keyword of functions may be left out. -/
def method : Parser Routine := do
  let async ← accept .asyncWord
  discard (accept .functionWord)
  g.routine async

def classStatement : Parser Statement := do
  let start ← here
  discard advance
  let name ← name .className
  discard (expect .leftBrace .classOpen)
  let methods ← items g.method
  discard (expect .rightBrace .classClose)
  return .classDecl (← spanFrom start) name methods

/-! ## Control flow -/

/-- What follows the alternative's keyword: a conditional, which is a level of its own,
or a block. -/
def alternative : Parser Statement := do
  if ← sees .ifWord then g.statement else g.blockStatement

/-- A conditional. One pair of parentheses around its condition is dropped. -/
def conditional : Parser Statement := do
  let start ← here
  discard advance
  let condition ← g.expression .lowest
  let body ← g.block
  let otherwise ← optionally .elseWord g.alternative
  return .conditional (← spanFrom start) condition.ungrouped body otherwise

def caughtName : Parser String := do
  let name ← name .caughtName
  discard (expect .rightParen .caughtClose)
  return name

def handler : Parser Handler := do
  let binding ← optionally .leftParen caughtName
  let body ← g.block
  return ⟨binding, body⟩

def attempt : Parser Statement := do
  let start ← here
  discard advance
  let body ← g.block
  let handler ← optionally .catchWord g.handler
  let cleanup ← optionally .finallyWord g.block
  if handler.isNone ∧ cleanup.isNone then unexpected .handlerOrCleanup
  else return .attempt (← spanFrom start) body handler cleanup

def returnValue : Parser (Option Expr) := do
  if ← sees .semicolon then return none else return some (← g.expression .lowest)

def returning : Parser Statement := do
  let start ← here
  discard advance
  let value ← g.returnValue
  discard (expect .semicolon .endOfReturn)
  return .returning (← spanFrom start) value

/-- Whether an expression ends with a brace of its own, so that no semicolon has to
follow it as a statement. -/
def endsItself : Expr → Bool
  | .select _ _ _ => true
  | _ => false

def expressionStatement : Parser Statement := do
  let start ← here
  let value ← g.expression .lowest
  let ended ← accept .semicolon
  if ended ∨ endsItself value then return .expression (← spanFrom start) value
  else unexpected .endOfExpression

def anyStatement : Parser Statement := do
  let t ← peek
  match t.kind with
  | .functionWord => g.functionStatement
  | .asyncWord => g.asyncStatement
  | .classWord => g.classStatement
  | .constWord | .letWord => g.declaration
  | .ifWord => g.conditional
  | .tryWord => g.attempt
  | .returnWord => g.returning
  | .leftBrace => g.blockStatement
  | _ => g.expressionStatement

/-! ## Levels -/

/-- Nothing can be read below the last level. -/
def exhausted {α : Type} : Parser α := fun c => .error (.tooDeep c.span) c

/-- One level on top of a grammar that has `room` levels. -/
def nest (room : Nat) : Grammar :=
  ⟨g.anyStatement, g.chain room⟩

def ofRoom : Nat → Grammar
  | 0 => ⟨exhausted, fun _ => exhausted⟩
  | room + 1 => (ofRoom room).nest room

def full : Grammar :=
  ofRoom maxNesting

end Grammar

end TwoScript
