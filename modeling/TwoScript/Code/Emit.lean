import TwoScript.Code.Await
import TwoScript.Code.Layout
import TwoScript.Code.Literal
import TwoScript.Code.Name
import TwoScript.Code.Visit

/-!
# Generating code

Every expression and statement has its code as a layout, given the indentation level
it stands on and the number of the next free temporary. Parentheses of the tree are
kept, and others are added only where JavaScript would group differently.

A selection becomes a function that is called at once. It holds the subject in a
temporary and runs one chain of tests, so that exactly one arm is taken; the function
is asynchronous, and waited for, when something inside it waits.
-/

namespace TwoScript

open Layout

/-! ## Operators -/

/-- How strongly JavaScript binds a binary operator. -/
def BinaryOp.strength : BinaryOp → Nat
  | .or => 3
  | .and => 4
  | .bitOr => 5
  | .bitXor => 6
  | .bitAnd => 7
  | .equal | .notEqual => 8
  | .less | .lessEqual | .greater | .greaterEqual => 9
  | .shiftLeft | .shiftRight => 10
  | .add | .subtract => 11
  | .multiply | .divide | .modulo => 12

def unaryStrength : Nat := 14

/-- Whether an operand of an operator of the given strength has to stand between
parentheses. Operators of one strength group to the left. -/
def Expr.needsParens (strength : Nat) (isRight : Bool) : Expr → Bool
  | .binary _ op _ _ => op.strength < strength || isRight && op.strength == strength
  | .assign _ _ _ _ => true
  | _ => false

/-- Whether an expression has to stand between parentheses in front of a call or a
dot, which would otherwise bind tighter than its waiting. -/
def Expr.isAwaitedSelection : Expr → Bool
  | .select s subject arms => Expr.awaits (.select s subject arms)
  | _ => false

/-- Whether an expression is a number, whose point would swallow the dot of a
member. -/
def Expr.isNumber : Expr → Bool
  | .literal _ (.number _) => true
  | _ => false

/-- An operator in front of its operand. Two minus signs are kept apart. -/
def unaryCode (op : UnaryOp) (operand : Layout) : Layout :=
  if op = .negate ∧ operand.first? = some '-' then .text "- " :: operand
  else .text op.symbol :: operand

/-! ## Selections -/

/-- A chain of tests, each a pattern with the code to run when the subject equals it,
and the code to run when no test holds. -/
structure Choice where
  tests : List (Layout × Layout)
  otherwise : Layout

namespace Choice

def testsCode (level : Nat) (temp keyword : String) : List (Layout × Layout) → Layout
  | [] => []
  | (pattern, body) :: tests =>
    line level (.text (keyword ++ " (" ++ temp ++ " === ") :: pattern ++ [.text ") \x7b"])
      ++ body ++ testsCode level temp "\x7d else if" tests

/-- The code of a choice. Without a test the last resort stands alone. -/
def code (level : Nat) (temp : String) (c : Choice) : Layout :=
  if c.tests.isEmpty then c.otherwise
  else
    testsCode level temp "if" c.tests ++ textLine level "\x7d else \x7b" ++ c.otherwise
      ++ textLine level "\x7d"

end Choice

def selectionCode (level : Nat) (temp : String) (awaits : Bool) (subject : Layout)
    (choice : Choice) : Layout :=
  .text (if awaits then "await (async () => \x7b\n" else "(() => \x7b\n")
    :: line (level + 1) (.text ("const " ++ temp ++ " = ") :: subject ++ [.text ";"])
    ++ choice.code (level + 1) temp ++ [.indent level, .text "\x7d)()"]

def noMatchCode (level : Nat) (temp : String) : Layout :=
  textLine level ("throw new Error(\"no match for value: \" + " ++ temp ++ ");")

/-! ## Blocks -/

/-- A head, a body between braces and whatever follows the closing brace. -/
def bracedCode (level : Nat) (head : Layout) (body rest : Layout) : Layout :=
  line level (head ++ [.text " \x7b"]) ++ body ++ rest

def signatureCode (async : Bool) (name : String) (params : Layout) : Layout :=
  .text ((if async then "async " else "") ++ name ++ "(") :: params ++ [.text ")"]

/-- What a statement stands for: itself, or the body of an arm. -/
inductive Role where
  | plain
  | arm
deriving DecidableEq, Repr

mutual

/-- The code of an expression on a level, with temporaries from `n` on. -/
def Expr.code (level n : Nat) : Expr → Layout
  | .literal _ value => [.text value.code]
  | .ident _ name => [.text (bindingName name)]
  | .assign _ op target value =>
    target.code level n ++ .text (" " ++ op.symbol ++ " ")
      :: value.code level (n + temporaries target.visits)
  | .binary _ op left right =>
    parenthesized (left.needsParens op.strength false) (left.code level n)
      ++ .text (" " ++ op.symbol ++ " ")
      :: parenthesized (right.needsParens op.strength true)
        (right.code level (n + temporaries left.visits))
  | .unary _ op operand =>
    unaryCode op
      (parenthesized (operand.needsParens unaryStrength false) (operand.code level n))
  | .group _ inner => parenthesized true (inner.code level n)
  | .call _ callee args =>
    parenthesized callee.isAwaitedSelection (callee.code level n) ++ .text "("
      :: argsCode level (n + temporaries callee.visits) args ++ [.text ")"]
  | .member _ object property =>
    parenthesized (object.isAwaitedSelection || object.isNumber) (object.code level n)
      ++ [.text ("." ++ property)]
  | .await _ operand =>
    .text "await "
      :: parenthesized (operand.needsParens unaryStrength false) (operand.code level n)
  | .select _ subject arms =>
    let m := n + 1 + temporaries subject.visits
    let tests := testsOf (level + 1) m arms
    let otherwise :=
      otherwiseOf (if tests.isEmpty then level + 1 else level + 2) (temporary n)
        (m + temporaries (valueArmsVisits arms)) arms
    selectionCode level (temporary n) (subject.awaits || armsAwait arms)
      (subject.code level (n + 1)) ⟨tests, otherwise⟩
  | .template _ parts => .text "`" :: partsCode level n parts ++ [.text "`"]

def argsCode (level n : Nat) : List Expr → Layout
  | [] => []
  | [e] => e.code level n
  | e :: f :: es =>
    e.code level n ++ .text ", " :: argsCode level (n + temporaries e.visits) (f :: es)

/-- The tests of a selection: the arms with a pattern, in order. -/
def testsOf (level n : Nat) : List Arm → List (Layout × Layout)
  | [] => []
  | ⟨none, _⟩ :: arms => testsOf level n arms
  | ⟨some pattern, body⟩ :: arms =>
    let m := n + temporaries pattern.visits
    (pattern.code level n, body.code .arm (level + 1) m)
      :: testsOf level (m + temporaries body.visits) arms

/-- The last resort of a selection: the first arm without a pattern. -/
def otherwiseOf (level : Nat) (temp : String) (n : Nat) : List Arm → Layout
  | [] => noMatchCode level temp
  | ⟨none, body⟩ :: _ => body.code .arm level n
  | ⟨some _, _⟩ :: arms => otherwiseOf level temp n arms

def partsCode (level n : Nat) : List Part → Layout
  | [] => []
  | .text text :: parts =>
    .text (String.ofList (escapeTemplate text.toList)) :: partsCode level n parts
  | .expr e :: parts =>
    .text "$\x7b" :: e.code level n ++ .text "\x7d"
      :: partsCode level (n + temporaries e.visits) parts

/-- The code of a statement on a level, with temporaries from `n` on. As the body of an
arm, an expression is the value of the selection, and the statements of a block stand
without its braces. -/
def Statement.code (role : Role) (level n : Nat) : Statement → Layout
  | .function _ routine => routine.code level n true
  | .classDecl _ name methods =>
    bracedCode level [.text ("class " ++ bindingName name)]
      (methodsCode (level + 1) n methods) (textLine level "\x7d")
  | .declare _ constant name _ none =>
    textLine level ((if constant then "const " else "let ") ++ bindingName name ++ ";")
  | .declare _ constant name _ (some initial) =>
    line level (.text ((if constant then "const " else "let ") ++ bindingName name ++ " = ")
      :: initial.code level n ++ [.text ";"])
  | .conditional _ condition body otherwise =>
    let m := n + temporaries condition.visits
    .indent level :: .text "if (" :: condition.code level n ++ .text ") \x7b\n"
      :: bodyCode (level + 1) m body
      ++ elseCode level (m + temporaries (bodyVisits body)) otherwise
  | .attempt _ body handler cleanup =>
    let m := n + temporaries (bodyVisits body)
    textLine level "try \x7b" ++ bodyCode (level + 1) n body ++ handlerCode level m handler
      ++ cleanupCode level (m + temporaries (handlerVisits handler)) cleanup
      ++ textLine level "\x7d"
  | .returning _ none => textLine level "return;"
  | .returning _ (some value) =>
    line level (.text "return " :: value.code level n ++ [.text ";"])
  | .block _ body =>
    match role with
    | .plain =>
      textLine level "\x7b" ++ bodyCode (level + 1) n body ++ textLine level "\x7d"
    | .arm => bodyCode level n body
  | .expression _ value =>
    match role with
    | .plain => line level (value.code level n ++ [.text ";"])
    | .arm => line level (.text "return " :: value.code level n ++ [.text ";"])
  | .failed _ => []

def bodyCode (level n : Nat) : List Statement → Layout
  | [] => []
  | s :: ss => s.code .plain level n ++ bodyCode level (n + temporaries s.visits) ss

/-- The end of a conditional, from its closing brace on. A conditional as alternative
goes on in the same line. -/
def elseCode (level n : Nat) : Option Statement → Layout
  | none => textLine level "\x7d"
  | some (.conditional _ condition body otherwise) =>
    let m := n + temporaries condition.visits
    .indent level :: .text "\x7d else if (" :: condition.code level n ++ .text ") \x7b\n"
      :: bodyCode (level + 1) m body
      ++ elseCode level (m + temporaries (bodyVisits body)) otherwise
  | some (.block _ body) =>
    textLine level "\x7d else \x7b" ++ bodyCode (level + 1) n body
      ++ textLine level "\x7d"
  | some s =>
    textLine level "\x7d else \x7b" ++ s.code .plain (level + 1) n ++ textLine level "\x7d"

/-- The code of a handler, from the brace that closes the attempt on. -/
def handlerCode (level n : Nat) : Option Handler → Layout
  | none => []
  | some ⟨none, body⟩ =>
    textLine level "\x7d catch \x7b" ++ bodyCode (level + 1) n body
  | some ⟨some name, body⟩ =>
    textLine level ("\x7d catch (" ++ bindingName name ++ ") \x7b")
      ++ bodyCode (level + 1) n body

def cleanupCode (level n : Nat) : Option (List Statement) → Layout
  | none => []
  | some body => textLine level "\x7d finally \x7b" ++ bodyCode (level + 1) n body

/-- The code of a routine. A method has neither keyword nor a name that is bound. -/
def Routine.code (level n : Nat) (keyword : Bool) : Routine → Layout
  | ⟨name, params, _, body, async⟩ =>
    bracedCode level
      (signatureCode async (if keyword then "function " ++ bindingName name else name)
        (paramsCode level n params))
      (bodyCode (level + 1) (n + temporaries (paramsVisits params)) body)
      (textLine level "\x7d")

def methodsCode (level n : Nat) : List Routine → Layout
  | [] => []
  | [r] => r.code level n false
  | r :: q :: rs =>
    r.code level n false ++ .text "\n"
      :: methodsCode level (n + temporaries r.visits) (q :: rs)

/-- The code of a parameter. Types are dropped. -/
def Parameter.code (level n : Nat) : Parameter → Layout
  | ⟨name, _, none⟩ => [.text (bindingName name)]
  | ⟨name, _, some value⟩ => .text (bindingName name ++ " = ") :: value.code level n

def paramsCode (level n : Nat) : List Parameter → Layout
  | [] => []
  | [p] => p.code level n
  | p :: q :: ps =>
    p.code level n ++ .text ", "
      :: paramsCode level (n + temporaries (paramsVisits [p])) (q :: ps)

end

end TwoScript
