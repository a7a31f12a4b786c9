import TwoScript.Token.Basic

/-!
# Parse errors

What can be wrong with a list of tokens, as causes. The wording is in
`Expectation.text` and `ParseError.message` alone.
-/

namespace TwoScript

/-- The number of levels to which statements and expressions may nest. -/
def maxNesting : Nat := 256

inductive Expectation where
  | variableName
  | constantValue
  | endOfDeclaration
  | typeName
  | endOfReturn
  | blockOpen
  | blockClose
  | endOfExpression
  | functionKeyword
  | functionName
  | parametersOpen
  | parametersClose
  | parameterName
  | className
  | classOpen
  | classClose
  | caughtName
  | caughtClose
  | handlerOrCleanup
  | operator
  | expression
  | argumentsClose
  | propertyName
  | groupClose
  | selectionOpen
  | selectionClose
  | arrow
  | pattern
  | negatedNumber
  | endOfInterpolation
deriving DecidableEq, Repr

namespace Expectation

def text : Expectation → String
  | variableName => "variable name"
  | constantValue => "`=` (a constant needs a value)"
  | endOfDeclaration => "`;` after variable declaration"
  | typeName => "type name"
  | endOfReturn => "`;` after return"
  | blockOpen => "`\x7b`"
  | blockClose => "`\x7d`"
  | endOfExpression => "`;` after expression"
  | functionKeyword => "`function`"
  | functionName => "function name"
  | parametersOpen => "`(` after function name"
  | parametersClose => "`)` after parameters"
  | parameterName => "parameter name"
  | className => "class name"
  | classOpen => "`\x7b` after class name"
  | classClose => "`\x7d` to close class"
  | caughtName => "name of the caught value"
  | caughtClose => "`)` after catch binding"
  | handlerOrCleanup => "`catch` or `finally` after try block"
  | operator => "operator"
  | expression => "expression"
  | argumentsClose => "`)` after arguments"
  | propertyName => "property name after `.`"
  | groupClose => "`)`"
  | selectionOpen => "`\x7b` after match subject"
  | selectionClose => "`\x7d` to close match"
  | arrow => "`->` after match pattern"
  | pattern => "literal pattern"
  | negatedNumber => "number after `-` in match pattern"
  | endOfInterpolation => "end of interpolation"

end Expectation

/-- Why a statement or an expression could not be read, with the span of the token that
shows it. An error inside a template is kept as the cause of an error of the whole
template. -/
inductive ParseError where
  | unexpected (expected : Expectation) (found : String) (span : Span)
  | endOfFile (expected : Expectation) (span : Span)
  | noLiteral (text : String) (span : Span)
  | cannotStart (text : String) (span : Span)
  | negatedNonNumber (span : Span)
  | assignmentTarget (span : Span)
  | lexical (error : LexicalError)
  | tooDeep (span : Span)
  | interpolation (cause : ParseError) (span : Span)
deriving DecidableEq, Repr

namespace ParseError

def span : ParseError → Span
  | unexpected _ _ s | endOfFile _ s | noLiteral _ s | cannotStart _ s | negatedNonNumber s
  | assignmentTarget s | tooDeep s | interpolation _ s => s
  | lexical e => e.span

def line (e : ParseError) : Nat :=
  e.span.line

def message : ParseError → String
  | unexpected expected found _ =>
    "expected " ++ expected.text ++ ", found `" ++ found ++ "`"
  | endOfFile expected _ => "unexpected end of file, expected " ++ expected.text
  | noLiteral text _ => "invalid expression: `" ++ text ++ "` has no literal value"
  | cannotStart text _ => "invalid expression: `" ++ text ++ "` cannot start an expression"
  | negatedNonNumber _ => "invalid expression: expected a number after `-`"
  | assignmentTarget _ => "invalid assignment target"
  | lexical e => e.message
  | tooDeep _ => "nesting deeper than " ++ toString maxNesting ++ " levels"
  | interpolation cause _ => "in template literal: " ++ cause.message

end ParseError

end TwoScript
