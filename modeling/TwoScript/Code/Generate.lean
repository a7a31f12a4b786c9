import TwoScript.Code.Emit

/-!
# Code of programs

`generate` gives the JavaScript text of a list of statements, or the reason why one of
their nodes has no code.
-/

namespace TwoScript

structure Options where
  /-- Spaces per level of indentation. -/
  indent : Nat := 4
  /-- Whether the code asks for strict mode. -/
  strict : Bool := false
deriving DecidableEq, Repr

def outputFormat : String := "JavaScript"

def outputExtension : String := "js"

/-- Whether a statement is set off by an empty line. -/
def Statement.isDeclaration : Statement → Bool
  | .function _ _ | .classDecl _ _ _ => true
  | _ => false

/-- The code of the statements of a program. An empty line stands between a declaration
and what follows it. -/
def programCode (n : Nat) : List Statement → Layout
  | [] => []
  | [s] => s.code .plain 0 n
  | s :: t :: ss =>
    s.code .plain 0 n ++ (if s.isDeclaration then [.text "\n"] else [])
      ++ programCode (n + temporaries s.visits) (t :: ss)

def prologue (strict : Bool) : String :=
  if strict then "\"use strict\";\n\n" else ""

def generate (options : Options) (statements : List Statement) : Except Refusal String :=
  match refusal? (bodyVisits statements) with
  | some refusal => .error refusal
  | none =>
    .ok (prologue options.strict ++ (programCode 0 statements).render options.indent)

end TwoScript
