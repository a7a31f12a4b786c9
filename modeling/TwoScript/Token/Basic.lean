import TwoScript.Number.Basic
import TwoScript.Span
import TwoScript.Token.Kind

/-!
# Tokens

A token pairs a kind with the text as it was written, the span of that text and, for
literals, the value.
-/

namespace TwoScript

inductive Literal where
  | number (value : Number)
  | string (value : String)
  | boolean (value : Bool)
  | null
deriving DecidableEq, Repr

structure Token where
  kind : Kind
  text : String
  span : Span
  literal : Option Literal
deriving DecidableEq, Repr

/-- A stretch of source text that makes no token. -/
structure LexicalError where
  fault : LexicalFault
  text : String
  span : Span
deriving DecidableEq, Repr

namespace LexicalError

def message (e : LexicalError) : String :=
  e.fault.message ++ " `" ++ e.text ++ "`"

end LexicalError

namespace Token

/-- The same token after `bytes` bytes and `lines` lines were put in front. -/
def shift (bytes lines : Nat) (t : Token) : Token :=
  { t with span := t.span.shift bytes lines }

def error? (t : Token) : Option LexicalError :=
  t.kind.fault?.map fun fault => ⟨fault, t.text, t.span⟩

@[simp] theorem shift_kind (bytes lines : Nat) (t : Token) :
    (t.shift bytes lines).kind = t.kind := rfl

@[simp] theorem shift_text (bytes lines : Nat) (t : Token) :
    (t.shift bytes lines).text = t.text := rfl

@[simp] theorem shift_literal (bytes lines : Nat) (t : Token) :
    (t.shift bytes lines).literal = t.literal := rfl

@[simp] theorem shift_span (bytes lines : Nat) (t : Token) :
    (t.shift bytes lines).span = t.span.shift bytes lines := rfl

end Token

def lexicalErrors (tokens : List Token) : List LexicalError :=
  tokens.filterMap Token.error?

end TwoScript
