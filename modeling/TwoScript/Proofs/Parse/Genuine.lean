import TwoScript.Parse.Cursor
import TwoScript.Proofs.Parse.Yield
import TwoScript.Proofs.Token.Carried

/-!
# Genuine errors

Some branches of the readers only guard against tokens that no text has: a literal without a
value, a number with a value of another type, an operator without a meaning. An error that
comes from no such branch, neither itself nor inside a template, is genuine. Faithful tokens
have their values and the tables of operators agree, so a run over them takes none of these
branches.
-/

namespace TwoScript

/-! ## Errors -/

namespace ParseError

/-- The error and those it was made from, from the outside in. -/
def causes : ParseError → List ParseError
  | interpolation cause span => interpolation cause span :: cause.causes
  | e => [e]

/-- Whether the error comes from a branch that guards against tokens that no text has. -/
def isGuard : ParseError → Bool
  | noLiteral _ _ | negatedNonNumber _ | unexpected .operator _ _ => true
  | _ => false

def Genuine (e : ParseError) : Prop :=
  ∀ cause ∈ e.causes, cause.isGuard = false

/-- An error that wraps no other. -/
theorem Genuine.of_single {e : ParseError} (single : e.causes = [e]) (guard : e.isGuard = false) :
    e.Genuine := by
  rw [Genuine, single]
  exact List.forall_mem_singleton.mpr guard

theorem Genuine.interpolation {cause : ParseError} (h : cause.Genuine) (span : Span) :
    (interpolation cause span).Genuine :=
  List.forall_mem_cons.mpr ⟨rfl, h⟩

end ParseError

theorem Cursor.genuine_failure (c : Cursor) {expected : Expectation}
    (other : expected ≠ .operator) : (c.failure expected).Genuine := by
  simp only [failure]
  split
  · exact .of_single rfl rfl
  · exact .of_single rfl rfl
  · exact .of_single rfl (by simp [ParseError.isGuard, other])

/-! ## Operators -/

/-- The three tables of operators agree: what continues an expression is a call, a member, an
assignment or a binary operator. -/
theorem Precedence.lowest_lt_ofKind_iff (kind : Kind) :
    lowest < ofKind kind ↔ kind = .leftParen ∨ kind = .dot ∨ kind.isAssignment = true ∨
      (BinaryOp.ofKind? kind).isSome = true := by
  cases kind with
  | invalid fault => cases fault <;> decide
  | _ => decide

theorem Precedence.lowest_lt_of_not_le {p min : Precedence} (h : ¬p ≤ min) : lowest < p :=
  Nat.lt_of_le_of_lt (Nat.zero_le min.rank) (Nat.lt_of_not_le h)

theorem AssignOp.isSome_ofKind? (kind : Kind) :
    (ofKind? kind).isSome = kind.isAssignment := by
  cases kind <;> rfl

/-- A faithful token that can be read as a literal has a value. -/
theorem Shape.Faithful.exists_literal {t : Shape} (h : t.Faithful) (kind : t.isLiteral = true) :
    ∃ value, t.literal = some value := by
  rcases isLiteral_iff.mp kind with kind | kind | kind | kind | kind
  · obtain ⟨x, literal⟩ := h.number.mpr kind
    exact ⟨_, literal⟩
  · obtain ⟨s, literal⟩ := h.string.mpr (.inl kind)
    exact ⟨_, literal⟩
  · exact ⟨_, (h.boolean true).mpr kind⟩
  · exact ⟨_, (h.boolean false).mpr kind⟩
  · exact ⟨_, h.null.mpr kind⟩

end TwoScript
