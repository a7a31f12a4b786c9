/-!
# Kinds of tokens

A token has one kind, whichever script its words are written in. Text that makes no
token has a kind too, which says what is wrong with it.
-/

namespace TwoScript

inductive LexicalFault where
  | unexpectedCharacter
  | unterminatedString
  | unterminatedTemplate
  | invalidNumber
deriving DecidableEq, Repr

namespace LexicalFault

def all : List LexicalFault :=
  [unexpectedCharacter, unterminatedString, unterminatedTemplate, invalidNumber]

def name : LexicalFault → String
  | unexpectedCharacter => "UnexpectedCharacter"
  | unterminatedString => "UnterminatedString"
  | unterminatedTemplate => "UnterminatedTemplate"
  | invalidNumber => "InvalidNumber"

def message : LexicalFault → String
  | unexpectedCharacter => "unexpected character"
  | unterminatedString => "unterminated string literal"
  | unterminatedTemplate => "unterminated template literal"
  | invalidNumber => "invalid number literal"

end LexicalFault

/-- What a token is. Kinds that end in `Word` are keywords; `invalid` is text that makes
no token, and `endOfFile` is the end of the input. -/
inductive Kind where
  | leftParen
  | rightParen
  | leftBrace
  | rightBrace
  | comma
  | dot
  | semicolon
  | colon
  | arrow
  | plus
  | minus
  | star
  | slash
  | percent
  | bang
  | tilde
  | caret
  | ampersand
  | pipe
  | andAnd
  | orOr
  | shiftLeft
  | shiftRight
  | equal
  | equalEqual
  | bangEqual
  | less
  | lessEqual
  | greater
  | greaterEqual
  | plusEqual
  | minusEqual
  | starEqual
  | slashEqual
  | percentEqual
  | number
  | string
  | template
  | trueWord
  | falseWord
  | nullWord
  | identifier
  | functionWord
  | classWord
  | ifWord
  | elseWord
  | tryWord
  | catchWord
  | finallyWord
  | returnWord
  | constWord
  | letWord
  | asyncWord
  | awaitWord
  | matchWord
  | defaultWord
  | invalid (fault : LexicalFault)
  | endOfFile
deriving DecidableEq, Repr

namespace Kind

def all : List Kind :=
  [leftParen, rightParen, leftBrace, rightBrace, comma, dot, semicolon, colon, arrow, plus,
   minus, star, slash, percent, bang, tilde, caret, ampersand, pipe, andAnd, orOr, shiftLeft,
   shiftRight, equal, equalEqual, bangEqual, less, lessEqual, greater, greaterEqual, plusEqual,
   minusEqual, starEqual, slashEqual, percentEqual, number, string, template, trueWord,
   falseWord, nullWord, identifier, functionWord, classWord, ifWord, elseWord, tryWord,
   catchWord, finallyWord, returnWord, constWord, letWord, asyncWord, awaitWord, matchWord,
   defaultWord]
    ++ LexicalFault.all.map invalid ++ [endOfFile]

def name : Kind → String
  | leftParen => "LeftParen"
  | rightParen => "RightParen"
  | leftBrace => "LeftBrace"
  | rightBrace => "RightBrace"
  | comma => "Comma"
  | dot => "Dot"
  | semicolon => "Semicolon"
  | colon => "Colon"
  | arrow => "Arrow"
  | plus => "Plus"
  | minus => "Minus"
  | star => "Star"
  | slash => "Slash"
  | percent => "Percent"
  | bang => "Bang"
  | tilde => "Tilde"
  | caret => "Caret"
  | ampersand => "Ampersand"
  | pipe => "Pipe"
  | andAnd => "AndAnd"
  | orOr => "OrOr"
  | shiftLeft => "ShiftLeft"
  | shiftRight => "ShiftRight"
  | equal => "Equal"
  | equalEqual => "EqualEqual"
  | bangEqual => "BangEqual"
  | less => "Less"
  | lessEqual => "LessEqual"
  | greater => "Greater"
  | greaterEqual => "GreaterEqual"
  | plusEqual => "PlusEqual"
  | minusEqual => "MinusEqual"
  | starEqual => "StarEqual"
  | slashEqual => "SlashEqual"
  | percentEqual => "PercentEqual"
  | number => "NumberLiteral"
  | string => "StringLiteral"
  | template => "TemplateLiteral"
  | trueWord => "True"
  | falseWord => "False"
  | nullWord => "Null"
  | identifier => "Identifier"
  | functionWord => "Function"
  | classWord => "Class"
  | ifWord => "If"
  | elseWord => "Else"
  | tryWord => "Try"
  | catchWord => "Catch"
  | finallyWord => "Finally"
  | returnWord => "Return"
  | constWord => "Const"
  | letWord => "Let"
  | asyncWord => "Async"
  | awaitWord => "Await"
  | matchWord => "Match"
  | defaultWord => "Default"
  | invalid fault => "Invalid(" ++ fault.name ++ ")"
  | endOfFile => "Eof"

/-- How a diagnostic refers to a kind: by its symbol or English keyword if it has one. -/
def description : Kind → String
  | leftParen => "`(`"
  | rightParen => "`)`"
  | leftBrace => "`\x7b`"
  | rightBrace => "`\x7d`"
  | comma => "`,`"
  | dot => "`.`"
  | semicolon => "`;`"
  | colon => "`:`"
  | arrow => "`->`"
  | plus => "`+`"
  | minus => "`-`"
  | star => "`*`"
  | slash => "`/`"
  | percent => "`%`"
  | bang => "`!`"
  | tilde => "`~`"
  | caret => "`^`"
  | ampersand => "`&`"
  | pipe => "`|`"
  | andAnd => "`&&`"
  | orOr => "`||`"
  | shiftLeft => "`<<`"
  | shiftRight => "`>>`"
  | equal => "`=`"
  | equalEqual => "`==`"
  | bangEqual => "`!=`"
  | less => "`<`"
  | lessEqual => "`<=`"
  | greater => "`>`"
  | greaterEqual => "`>=`"
  | plusEqual => "`+=`"
  | minusEqual => "`-=`"
  | starEqual => "`*=`"
  | slashEqual => "`/=`"
  | percentEqual => "`%=`"
  | number => "number"
  | string => "string"
  | template => "template literal"
  | trueWord => "`true`"
  | falseWord => "`false`"
  | nullWord => "`null`"
  | identifier => "identifier"
  | functionWord => "`function`"
  | classWord => "`class`"
  | ifWord => "`if`"
  | elseWord => "`else`"
  | tryWord => "`try`"
  | catchWord => "`catch`"
  | finallyWord => "`finally`"
  | returnWord => "`return`"
  | constWord => "`const`"
  | letWord => "`let`"
  | asyncWord => "`async`"
  | awaitWord => "`await`"
  | matchWord => "`match`"
  | defaultWord => "`default`"
  | invalid _ => "invalid token"
  | endOfFile => "end of file"

/-- Whether a statement that begins with this kind is a point to resume at after an
error. -/
def startsDeclaration : Kind → Bool
  | classWord | functionWord | letWord | constWord | ifWord | tryWord | asyncWord => true
  | _ => false

def isAssignment : Kind → Bool
  | equal | plusEqual | minusEqual | starEqual | slashEqual | percentEqual => true
  | _ => false

def fault? : Kind → Option LexicalFault
  | invalid fault => some fault
  | _ => none

end Kind

end TwoScript
