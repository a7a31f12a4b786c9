import TwoScript.Proofs.Parse.Progress

/-!
# What holds across every token that is read

A reader that succeeds has passed every token from one cursor to the other by one of few
ways: the token was of a kind that the reader asked for, it was a property name, or it was a
template whose sources were all read to their ends. A relation between cursors that holds
across each of these is a `Passage`.
-/

namespace TwoScript

open TwoScript.Parser

/-- A kind that is asked for by name and has nothing inside it. -/
def Kind.isOrdinary : Kind → Bool
  | template | invalid _ | endOfFile => false
  | _ => true

def Cursor.templateSegments (c : Cursor) : List Segment :=
  TwoScript.templateSegments ⟨c.peek.span.start + 1, c.peek.span.line⟩
    (Grammar.templateBody c.peek)

/-- A relation between cursors that holds across every token that can be read. -/
structure Passage (R : Cursor → Cursor → Prop) : Prop where
  refl (c : Cursor) : R c c
  trans {c c₁ c' : Cursor} : R c c₁ → R c₁ c' → R c c'
  token {c : Cursor} {kind : Kind} : c.peek.kind = kind → kind.isOrdinary = true → R c c.next
  property {c : Cursor} : (keyword? c.peek.text).isSome = true → R c c.next
  template {c : Cursor} : c.peek.kind = .template →
    (∀ place cs, .source place cs ∈ c.templateSegments →
      ∃ c', R (.ofTokens (tokensFrom place cs)) c' ∧ c'.ahead = []) → R c c.next

theorem passage_reaches : Passage Cursor.Reaches where
  refl := .refl
  trans := .trans
  token _ _ := Cursor.reaches_next _
  property _ := Cursor.reaches_next _
  template _ _ := Cursor.reaches_next _

namespace Passage

variable {R : Cursor → Cursor → Prop} {α : Type} {c c' : Cursor} {e : Expr}

/-- A token and what is read behind it. -/
theorem behind (passage : Passage R) {kind : Kind} (mark : c.peek.kind = kind)
    (ordinary : kind.isOrdinary = true) (rest : R c.next c') : R c c' :=
  passage.trans (passage.token mark ordinary) rest

theorem optionally (passage : Passage R) {kind : Kind} {item : Parser α} {r : Option α}
    (ordinary : kind.isOrdinary = true) (reads : ∀ {c c' a}, item c = .ok a c' → R c c')
    (run : optionally kind item c = .ok r c') : R c c' := by
  rcases optionally_ok.mp run with ⟨mark, a, read, _⟩ | ⟨_, _, rfl⟩
  · exact passage.behind mark ordinary (reads read)
  · exact passage.refl c

/-- A keyword that may stand in front of something. -/
theorem accepted (passage : Passage R) {kind : Kind} (ordinary : kind.isOrdinary = true)
    (c : Cursor) : R c (if c.peek.kind = kind then c.next else c) := by
  split
  · rename_i mark
    exact passage.token mark ordinary
  · exact passage.refl c

/-! ## Readers of single tokens -/

theorem literal (passage : Passage R) (begins : c.peek.shape.isLiteral = true)
    (run : Grammar.literal c = .ok e c') : R c c' := by
  obtain ⟨value, _, _, rfl⟩ := Grammar.literal_ok.mp run
  have ordinary : c.peek.kind.isOrdinary = true := by
    rcases Shape.isLiteral_iff.mp begins with kind | kind | kind | kind | kind <;>
      exact (congrArg Kind.isOrdinary kind).trans rfl
  exact passage.token rfl ordinary

theorem pattern (passage : Passage R) (run : Grammar.pattern c = .ok e c') : R c c' := by
  rcases Grammar.pattern_ok.mp run with ⟨minus, read⟩ | ⟨begins, read⟩
  · obtain ⟨number, read⟩ := Grammar.negatedNumber_ok.mp read
    obtain ⟨x, _, _, rfl⟩ := Grammar.negatedLiteral_ok.mp read
    exact passage.behind minus rfl (passage.token number rfl)
  · exact passage.literal (Shape.isLiteral_iff.mpr begins) read

theorem armEnd (passage : Passage R) {u : Unit} (run : Grammar.armEnd c = .ok u c') : R c c' := by
  rw [← Grammar.armEnd_ok.mp run]
  split
  · rename_i mark
    rcases mark with mark | mark
    · exact passage.token mark rfl
    · exact passage.token mark rfl
  · exact passage.refl c

theorem propertyName (passage : Passage R) {name : String}
    (run : Grammar.property c = .ok name c') : R c c' := by
  obtain ⟨name | keyword, _, rfl⟩ := Grammar.property_ok.mp run
  · exact passage.token name rfl
  · exact passage.property keyword

theorem typeName (passage : Passage R) {name : String} (run : Grammar.typeName c = .ok name c') :
    R c c' := by
  obtain ⟨begins, _, rfl⟩ := Grammar.typeName_ok.mp run
  rcases begins with begins | begins
  · exact passage.token begins rfl
  · exact passage.token begins rfl

theorem caughtName (passage : Passage R) {name : String}
    (run : Grammar.caughtName c = .ok name c') : R c c' := by
  obtain ⟨name, close, _, rfl⟩ := Grammar.caughtName_ok.mp run
  exact passage.behind name rfl (passage.token close rfl)

/-! ## Operators -/

theorem unary (passage : Passage R) {op : UnaryOp}
    (mark : UnaryOp.ofKind? c.peek.kind = some op) : R c c.next := by
  refine passage.token rfl ?_
  cases kind : c.peek.kind <;> simp_all [UnaryOp.ofKind?, Kind.isOrdinary]

/-- Whatever continues an expression. -/
theorem operator (passage : Passage R)
    (mark : Precedence.lowest < Precedence.ofKind c.peek.kind) : R c c.next := by
  refine passage.token rfl ?_
  revert mark
  cases c.peek.kind with
  | invalid fault => cases fault <;> decide
  | _ => decide

end Passage

end TwoScript
