import TwoScript.Parse.Cursor

/-!
# Parsers

A parser reads tokens from a cursor and gives a value or an error; either way the
cursor stays behind the last token it read. `many` and `iterate` are the only loops.
They go on only while tokens are used up, which bounds them by the tokens ahead.
-/

namespace TwoScript

abbrev Parser := EStateM ParseError Cursor

namespace Parser

variable {α σ : Type}

def peek : Parser Token := fun c => .ok c.peek c

def here : Parser Span := fun c => .ok c.span c

def spanFrom (start : Span) : Parser Span := fun c => .ok (c.spanFrom start) c

def advance : Parser Token := fun c => .ok c.peek c.next

def unexpected (expected : Expectation) : Parser α := fun c => .error (c.failure expected) c

def sees (kind : Kind) : Parser Bool := fun c => .ok (decide (c.peek.kind = kind)) c

/-- Reads the next token if it has this kind, and says whether it had. -/
def accept (kind : Kind) : Parser Bool := fun c =>
  if c.peek.kind = kind then .ok true c.next else .ok false c

def expect (kind : Kind) (expected : Expectation) : Parser Token := fun c =>
  if c.peek.kind = kind then .ok c.peek c.next else .error (c.failure expected) c

def name (expected : Expectation) : Parser String :=
  return (← expect .identifier expected).text

/-- What follows a token of this kind, if one is next. -/
def optionally (kind : Kind) (p : Parser α) : Parser (Option α) := do
  if ← accept kind then return some (← p) else return none

/-- Collects what `step` gives until it gives nothing. -/
def many (step : Parser (Option α)) : Parser (List α) := fun c =>
  match step c with
  | .error e c' => .error e c'
  | .ok none c' => .ok [] c'
  | .ok (some a) c' =>
    if c'.ahead.length < c.ahead.length then
      match many step c' with
      | .ok as c'' => .ok (a :: as) c''
      | .error e c'' => .error e c''
    else .ok [a] c'
termination_by c => c.ahead.length

/-- Improves a value by `step` until it gives nothing. -/
def iterate (step : σ → Parser (Option σ)) (s : σ) : Parser σ := fun c =>
  match step s c with
  | .error e c' => .error e c'
  | .ok none c' => .ok s c'
  | .ok (some s') c' =>
    if c'.ahead.length < c.ahead.length then iterate step s' c' else .ok s' c'
termination_by c => c.ahead.length

/-- An item, or nothing in front of a closing brace or the end of the input. -/
def itemBeforeBrace (item : Parser α) : Parser (Option α) := do
  let t ← peek
  if t.kind = .rightBrace ∨ t.kind = .endOfFile then return none
  else return some (← item)

/-- Items up to a closing brace or the end of the input, neither of which is read. -/
def items (item : Parser α) : Parser (List α) :=
  many (itemBeforeBrace item)

/-- Items with commas between them, or none if the next token is the closing one. -/
def separated (close : Kind) (item : Parser α) : Parser (List α) := do
  if ← sees close then return []
  else
    let first ← item
    let rest ← many (optionally .comma item)
    return first :: rest

end Parser

end TwoScript
