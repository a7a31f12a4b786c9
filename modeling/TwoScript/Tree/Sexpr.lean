import TwoScript.Number.Shortest
import TwoScript.Text.Quoted
import TwoScript.Tree.Basic

/-!
# Trees as S-expressions

A listing of a tree that leaves the spans out. Names are written as they are, texts
between quotes.
-/

namespace TwoScript

def Literal.sexpr : Literal → String
  | .number x => x.text
  | .string s => quoteText s
  | .boolean true => "true"
  | .boolean false => "false"
  | .null => "null"

def typeSuffix : Option String → String
  | none => ""
  | some type => ":" ++ type

mutual

def Expr.sexpr : Expr → String
  | .literal _ value => value.sexpr
  | .ident _ name => name
  | .assign _ op target value =>
    "(" ++ op.symbol ++ " " ++ target.sexpr ++ " " ++ value.sexpr ++ ")"
  | .binary _ op left right =>
    "(" ++ op.symbol ++ " " ++ left.sexpr ++ " " ++ right.sexpr ++ ")"
  | .unary _ op operand => "(" ++ op.symbol ++ " " ++ operand.sexpr ++ ")"
  | .group _ inner => "(group " ++ inner.sexpr ++ ")"
  | .call _ callee args => "(call " ++ callee.sexpr ++ argsSexpr args ++ ")"
  | .member _ object property => "(. " ++ object.sexpr ++ " " ++ property ++ ")"
  | .await _ operand => "(await " ++ operand.sexpr ++ ")"
  | .select _ subject arms => "(match " ++ subject.sexpr ++ armsSexpr arms ++ ")"
  | .template _ parts => "(template" ++ partsSexpr parts ++ ")"

/-- The listings of arguments, each behind a space. -/
def argsSexpr : List Expr → String
  | [] => ""
  | e :: es => " " ++ e.sexpr ++ argsSexpr es

def armsSexpr : List Arm → String
  | [] => ""
  | ⟨none, body⟩ :: arms => " (default " ++ body.sexpr ++ ")" ++ armsSexpr arms
  | ⟨some pattern, body⟩ :: arms =>
    " (" ++ pattern.sexpr ++ " " ++ body.sexpr ++ ")" ++ armsSexpr arms

def partsSexpr : List Part → String
  | [] => ""
  | .text text :: parts => " " ++ quoteText text ++ partsSexpr parts
  | .expr e :: parts => " " ++ e.sexpr ++ partsSexpr parts

def Statement.sexpr : Statement → String
  | .function _ routine => routine.sexpr
  | .classDecl _ name methods => "(class " ++ name ++ routinesSexpr methods ++ ")"
  | .declare _ constant name type initial =>
    (if constant then "(const " else "(let ") ++ name ++ typeSuffix type
      ++ initialSexpr initial ++ ")"
  | .conditional _ condition body otherwise =>
    "(if " ++ condition.sexpr ++ " (then" ++ bodySexpr body ++ ")"
      ++ otherwiseSexpr otherwise ++ ")"
  | .attempt _ body handler cleanup =>
    "(try (block" ++ bodySexpr body ++ ")" ++ handlerSexpr handler
      ++ cleanupSexpr cleanup ++ ")"
  | .returning _ value => "(return" ++ initialSexpr value ++ ")"
  | .block _ body => "(block" ++ bodySexpr body ++ ")"
  | .expression _ value => value.sexpr
  | .failed _ => "(error)"

def initialSexpr : Option Expr → String
  | none => ""
  | some value => " " ++ value.sexpr

def otherwiseSexpr : Option Statement → String
  | none => ""
  | some statement => " (else " ++ statement.sexpr ++ ")"

def handlerSexpr : Option Handler → String
  | none => ""
  | some ⟨none, body⟩ => " (catch" ++ bodySexpr body ++ ")"
  | some ⟨some name, body⟩ => " (catch " ++ name ++ bodySexpr body ++ ")"

def cleanupSexpr : Option (List Statement) → String
  | none => ""
  | some body => " (finally" ++ bodySexpr body ++ ")"

def bodySexpr : List Statement → String
  | [] => ""
  | s :: ss => " " ++ s.sexpr ++ bodySexpr ss

def Routine.sexpr : Routine → String
  | ⟨name, params, returns, body, async⟩ =>
    (if async then "(async function " else "(function ") ++ name ++ " ("
      ++ paramsSexpr params ++ ")"
      ++ (match returns with
          | none => ""
          | some type => " -> " ++ type)
      ++ bodySexpr body ++ ")"

def routinesSexpr : List Routine → String
  | [] => ""
  | r :: rs => " " ++ r.sexpr ++ routinesSexpr rs

def Parameter.sexpr : Parameter → String
  | ⟨name, type, none⟩ => name ++ typeSuffix type
  | ⟨name, type, some value⟩ => name ++ typeSuffix type ++ "=" ++ value.sexpr

def paramsSexpr : List Parameter → String
  | [] => ""
  | [p] => p.sexpr
  | p :: q :: ps => p.sexpr ++ " " ++ paramsSexpr (q :: ps)

end

end TwoScript
