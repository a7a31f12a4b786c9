import TwoScript.Parse.Error

/-!
# A cursor in a list of tokens

The parser sees the tokens up to the first one for the end of the input, and nothing
behind it. A list without such a token is read as if one stood behind its last
token.
-/

namespace TwoScript

/-- A position in a list of tokens: the token in front of it, those still ahead, none of
which ends the input, and the one that does. -/
structure Cursor where
  previous : Option Token
  ahead : List Token
  final : Token
  inner : ∀ t ∈ ahead, t.kind ≠ .endOfFile
  ends : final.kind = .endOfFile
deriving DecidableEq, Repr

namespace Cursor

def isInner (t : Token) : Bool :=
  decide (t.kind ≠ .endOfFile)

/-- The token for the end of an input that lacks one. -/
def missingEnd (tokens : List Token) : Token :=
  match tokens.getLast? with
  | some t =>
    { kind := .endOfFile, text := "", span := ⟨t.span.stop, t.span.stop, t.span.line⟩,
      literal := none }
  | none => { kind := .endOfFile, text := "", span := ⟨0, 0, 1⟩, literal := none }

def endOf (tokens : List Token) : Token :=
  ((tokens.dropWhile isInner).head?).getD (missingEnd tokens)

theorem missingEnd_kind (tokens : List Token) : (missingEnd tokens).kind = .endOfFile := by
  unfold missingEnd
  split <;> rfl

theorem endOf_kind (tokens : List Token) : (endOf tokens).kind = .endOfFile := by
  unfold endOf
  cases h : (tokens.dropWhile isInner).head? with
  | none => exact missingEnd_kind tokens
  | some t =>
      have stopped := List.head?_dropWhile_not isInner tokens
      rw [h] at stopped
      simpa [isInner] using stopped

def ofTokens (tokens : List Token) : Cursor where
  previous := none
  ahead := tokens.takeWhile isInner
  final := endOf tokens
  inner t ht := of_decide_eq_true (List.all_eq_true.mp List.all_takeWhile t ht)
  ends := endOf_kind tokens

/-- The next token; at the end, the one that ends the input. -/
def peek (c : Cursor) : Token :=
  c.ahead.head?.getD c.final

def atEnd (c : Cursor) : Bool :=
  c.ahead.isEmpty

/-- The cursor behind the next token. It stays where it is at the end. -/
def next (c : Cursor) : Cursor :=
  match h : c.ahead with
  | [] => c
  | t :: rest =>
    { c with
      previous := some t
      ahead := rest
      inner := fun u hu => c.inner u (h ▸ List.mem_cons_of_mem t hu) }

def skip : Nat → Cursor → Cursor
  | 0, c => c
  | n + 1, c => skip n c.next

def span (c : Cursor) : Span :=
  c.peek.span

/-- The span from the start of `start` to the end of the last token read. -/
def spanFrom (c : Cursor) (start : Span) : Span :=
  { start with stop := max ((c.previous.map (·.span.stop)).getD start.stop) start.start }

/-- The error of finding the next token instead of what was expected. An invalid token
is an error of its own. -/
def failure (c : Cursor) (expected : Expectation) : ParseError :=
  let t := c.peek
  match t.kind with
  | .invalid fault => .lexical ⟨fault, t.text, t.span⟩
  | .endOfFile => .endOfFile expected t.span
  | _ => .unexpected expected t.text t.span

theorem next_of_nil {c : Cursor} (h : c.ahead = []) : c.next = c := by
  unfold next
  split
  · rfl
  · simp_all

@[simp] theorem ahead_next (c : Cursor) : c.next.ahead = c.ahead.tail := by
  unfold next
  split <;> simp_all

@[simp] theorem next_final (c : Cursor) : c.next.final = c.final := by
  unfold next
  split <;> rfl

theorem previous_next {c : Cursor} {t : Token} {rest : List Token} (h : c.ahead = t :: rest) :
    c.next.previous = some t := by
  unfold next
  split <;> simp_all

@[simp] theorem length_ahead_next (c : Cursor) :
    c.next.ahead.length = c.ahead.length - 1 := by
  simp

end Cursor

end TwoScript
