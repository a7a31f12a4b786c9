import TwoScript.Parse.Statement

/-!
# Reading programs

A program is read statement by statement. A statement that fails is kept as a
placeholder together with its error, and reading resumes at the next boundary:
behind a semicolon or in front of a declaration, outside the braces that the failed
statement has opened.
-/

namespace TwoScript

/-- What was read of a program: its statements, with a placeholder for each one that
failed, and the errors of those, both in the order of the text. -/
structure Program where
  statements : List Statement
  errors : List ParseError

namespace Program

def empty : Program := ⟨[], []⟩

def isOk (p : Program) : Bool :=
  p.errors.isEmpty

/-- A program with one more statement in front, and the error of that statement if it
is a placeholder. -/
def push (s : Statement) (e : Option ParseError) (p : Program) : Program :=
  ⟨s :: p.statements, e.toList ++ p.errors⟩

end Program

/-! ## Recovery -/

/-- The number of braces left open by tokens. A closing brace without an opening one
does not count. -/
def openBraces (tokens : List Token) : Nat :=
  tokens.foldl (fun depth t =>
    match t.kind with
    | .leftBrace => depth + 1
    | .rightBrace => depth - 1
    | _ => depth) 0

/-- Whether a token that follows a closing brace goes on with the same statement. -/
def goesOn (kind : Kind) : Bool :=
  kind = .elseWord || kind = .catchWord || kind = .finallyWord

/-- The number of tokens up to the boundary at which reading resumes, when `depth`
braces are open. -/
def boundary (depth : Nat) : List Token → Nat
  | [] => 0
  | t :: rest =>
    match t.kind with
    | .leftBrace => 1 + boundary (depth + 1) rest
    | .rightBrace =>
      if depth = 1 then
        match rest.head? with
        | none => 1
        | some t' =>
          if t'.kind = .semicolon then 2
          else if goesOn t'.kind then 1 + boundary 0 rest
          else 1
      else 1 + boundary (depth - 1) rest
    | .semicolon => if depth = 0 then 1 else 1 + boundary depth rest
    | kind =>
      if depth = 0 ∧ kind.startsDeclaration then 0 else 1 + boundary depth rest

/-- The cursor at which reading resumes after a statement that began at `start` failed
at `c`. At least one token is passed over. -/
def recover (start c : Cursor) : Cursor :=
  let c := if c.ahead.length = start.ahead.length then c.next else c
  let depth := openBraces (start.ahead.take (start.ahead.length - c.ahead.length))
  if depth = 0 ∧ c.previous.map (·.kind) = some .semicolon then c
  else c.skip (boundary depth c.ahead)

/-! ## Programs -/

def statementOrFailure (g : Grammar) (c : Cursor) :
    Statement × Option ParseError × Cursor :=
  match g.statement c with
  | .ok s c' => (s, none, c')
  | .error e c' =>
    let c' := recover c c'
    (.failed (c'.spanFrom c.span), some e, c')

def programFrom (g : Grammar) (c : Cursor) : Program × Cursor :=
  if c.atEnd then (.empty, c)
  else
    let (s, e, c') := statementOrFailure g c
    if c'.ahead.length < c.ahead.length then
      let (p, c'') := programFrom g c'
      (p.push s e, c'')
    else (Program.empty.push s e, c')
termination_by c.ahead.length

namespace Cursor

def program (c : Cursor) : Program × Cursor :=
  programFrom .full c

def expression (c : Cursor) : EStateM.Result ParseError Cursor Expr :=
  Grammar.full.expression .lowest c

end Cursor

def Program.ofTokens (tokens : List Token) : Program :=
  (Cursor.ofTokens tokens).program.1

def parse (source : String) : Program :=
  Program.ofTokens (tokenize source)

end TwoScript
