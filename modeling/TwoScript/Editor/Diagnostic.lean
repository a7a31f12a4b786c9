import TwoScript.Editor.Position
import TwoScript.Parse.Program

/-!
# Diagnostics and hover texts

What an editor shows about a text: one diagnostic for each parse error, and a
description of the token under the cursor.
-/

namespace TwoScript

structure Diagnostic where
  start : Position
  stop : Position
  message : String
deriving DecidableEq, Repr

def diagnosticSource : String := "dvibhasha"

def ParseError.diagnostic (source : String) (e : ParseError) : Diagnostic where
  start := positionAt source e.span.start
  stop := positionAt source e.span.stop
  message := e.message

def diagnostics (source : String) : List Diagnostic :=
  (parse source).errors.map (·.diagnostic source)

def backquoted (s : String) : String :=
  "`" ++ s ++ "`"

/-- The description of a token: its kind, its text, and every spelling of its kind. -/
def Token.hover (t : Token) : String :=
  let spellings := t.kind.spellings
  "**Token:** " ++ backquoted t.kind.name ++ "\n\n**Text:** " ++ backquoted t.text
    ++ (if spellings.isEmpty then ""
        else "\n\n**Spellings:** " ++ ", ".intercalate (spellings.map backquoted))

def Token.covers (t : Token) (offset : Nat) : Bool :=
  decide (t.span.start ≤ offset) && decide (offset < t.span.stop)

def hover? (source : String) (p : Position) : Option String := do
  let offset ← offsetAt? source p
  let t ← (tokenize source).find? (·.covers offset)
  return t.hover

end TwoScript
