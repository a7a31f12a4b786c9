import TwoScript.Proofs.Parse.Ladder
import TwoScript.Proofs.Parse.Yield
import TwoScript.Proofs.Token.Lexed

/-!
# Trees that can be read

The conditions that every node of a tree satisfies when the tree was read from tokens:
names are words outside the tables, numbers were read from digits, operators stand on
the ladder of precedences, and the forms that a statement cannot have do not occur.
-/

namespace TwoScript

namespace Part

def beginsWithText : List Part → Bool
  | text _ :: _ => true
  | _ => false

/-- No text is empty or follows another one. -/
def Apart : List Part → Prop
  | [] => True
  | text s :: rest => s ≠ "" ∧ beginsWithText rest = false ∧ Apart rest
  | expr _ :: rest => Apart rest

end Part

def Literal.Written : Literal → Prop
  | number x => x.Written
  | _ => True

namespace Expr

/-- What is promised about the words and values of a single node. -/
def Formed : Expr → Prop
  | literal _ value => value.Written
  | ident _ name => isName name = true
  | member _ _ property => isWord property = true
  | template _ parts => Part.Apart parts
  | _ => True

/-- A literal, or a number with the opposite sign of one. -/
def IsPattern : Expr → Prop
  | literal _ (.number x) => x.Written ∨ ∃ y : Number, y.Written ∧ x = y.negate
  | literal _ _ => True
  | _ => False

end Expr

def Parameter.Formed (p : Parameter) : Prop :=
  isName p.name = true ∧ ∀ e, p.default = some e → e.isAssignment = false

def Routine.Formed (r : Routine) : Prop :=
  isName r.name = true ∧ ∀ p ∈ r.params, p.Formed

/-- What is promised about the names and parts of a single statement. -/
def Statement.Formed : Statement → Prop
  | function _ routine => routine.Formed
  | classDecl _ name methods => isName name = true ∧ ∀ m ∈ methods, m.Formed
  | declare _ constant name _ initial =>
    isName name = true ∧ (constant = true → initial.isSome = true)
  | conditional _ _ _ otherwise =>
    ∀ s, otherwise = some s → s.isConditional = true ∨ s.isBlock = true
  | attempt _ _ handler cleanup =>
    ¬(handler.isNone = true ∧ cleanup.isNone = true) ∧
      ∀ h, handler = some h → ∀ name, h.binding = some name → isName name = true
  | failed _ => False
  | _ => True

/-- The condition on the nodes of a tree that was read from tokens. -/
def grammatical : Check where
  expr e := e.Laddered ∧ e.Formed
  pattern := Expr.IsPattern
  statement := Statement.Formed

/-- An expression is written with at least one token. -/
theorem Expr.Yields.ne_nil {e : Expr} {ts : List Shape} (h : e.Yields ts) : ts ≠ [] := by
  rintro rfl
  cases e with
  | call _ callee args =>
      obtain ⟨ls, ms, whole, _, l, is, r, enclosed, _⟩ := h
      simp [enclosed] at whole
  | _ => simp [Yields, Enclosed] at h

/-- The expression inside dropped parentheses is as well-formed as the whole. -/
theorem Expr.Every.ungrouped {k : Check} {e : Expr} (h : e.Every k) : e.ungrouped.Every k := by
  cases e with
  | group _ inner =>
      rw [Every] at h
      exact h.2
  | _ => exact h

/-- Segments that are apart make parts that are. -/
theorem Part.apart_of_yields {parts : List Part} {segments : List Segment}
    (apart : Segment.Apart segments) (h : partsYield parts segments) : Part.Apart parts := by
  induction parts generalizing segments with
  | nil => trivial
  | cons part parts ih =>
      cases part with
      | text s =>
          obtain ⟨cs, rest, rfl, rfl, later⟩ := h
          obtain ⟨nonempty, next, apart⟩ := apart
          refine ⟨by simpa using nonempty, ?_, ih apart later⟩
          cases parts with
          | nil => rfl
          | cons part parts =>
              cases part with
              | text s =>
                  obtain ⟨ds, rest, rfl, _⟩ := later
                  cases next
              | expr e => rfl
      | expr e =>
          obtain ⟨place, cs, rest, rfl, _, later⟩ := h
          rw [Segment.Apart] at apart
          exact ih apart later

end TwoScript
