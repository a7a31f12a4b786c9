import TwoScript.Number.Shortest
import TwoScript.Token.Basic

/-!
# Literals in generated code

Values as JavaScript writes them: numbers without an exponent, strings between double
quotes, and the text of templates with what would end or interrupt it escaped.
-/

namespace TwoScript

def escapeChar (c : Char) : List Char :=
  if c = '"' then ['\\', '"']
  else if c = '\\' then ['\\', '\\']
  else if c = '\n' then ['\\', 'n']
  else if c = '\r' then ['\\', 'r']
  else if c = '\t' then ['\\', 't']
  else [c]

/-- The characters that a string literal escapes, each with the sign for it behind a backslash. -/
def escapeSigns : List (Char × Char) :=
  [('"', '"'), ('\\', '\\'), ('\n', 'n'), ('\r', 'r'), ('\t', 't')]

theorem escapeChar_cases (c : Char) :
    (∃ d, (c, d) ∈ escapeSigns ∧ escapeChar c = ['\\', d]) ∨
      (c ≠ '"' ∧ c ≠ '\\' ∧ c ≠ '\n' ∧ c ≠ '\r' ∧ c ≠ '\t') ∧ escapeChar c = [c] := by
  unfold escapeChar
  split
  · subst c
    exact .inl ⟨'"', by decide, rfl⟩
  split
  · subst c
    exact .inl ⟨'\\', by decide, rfl⟩
  split
  · subst c
    exact .inl ⟨'n', by decide, rfl⟩
  split
  · subst c
    exact .inl ⟨'r', by decide, rfl⟩
  split
  · subst c
    exact .inl ⟨'t', by decide, rfl⟩
  · rename_i quote escape line back tab
    exact .inr ⟨⟨quote, escape, line, back, tab⟩, rfl⟩

def escapeString (cs : List Char) : List Char :=
  '"' :: cs.flatMap escapeChar ++ ['"']

def escapeTemplate : List Char → List Char
  | [] => []
  | c :: cs =>
    if c = '`' ∨ c = '\\' ∨ c = '$' ∧ cs.head? = some '{' then
      '\\' :: c :: escapeTemplate cs
    else c :: escapeTemplate cs

def Literal.code : Literal → String
  | .number x => x.textWith "Infinity"
  | .string s => String.ofList (escapeString s.toList)
  | .boolean true => "true"
  | .boolean false => "false"
  | .null => "null"

end TwoScript
