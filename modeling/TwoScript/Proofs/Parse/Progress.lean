import TwoScript.Proofs.Parse.Outcome
import TwoScript.Proofs.Parse.Success
import TwoScript.Proofs.Tree.Formed
import TwoScript.Proofs.Tree.Node

/-!
# Every reader makes progress

Whatever the tokens are, a statement or an expression that is read uses up at least one
of them, holds no placeholder and spans the tokens it used up; one that fails leaves the
cursor behind what was read, with an error that shows there and that is genuine if the
tokens are faithful. One level on top of a
grammar that makes progress makes progress, so every grammar built by levels does:
`Grammar.progresses_ofRoom`.
-/

namespace TwoScript

open TwoScript.Parser

/-- The expression was read between the cursors, and spans the tokens between them. -/
structure Expr.Covers (e : Expr) (c c' : Cursor) : Prop where
  advances : c.Advances c'
  every : e.Every unbroken
  span : c.Ordered → e.span = c'.spanFrom c.span

structure Statement.Covers (s : Statement) (c c' : Cursor) : Prop where
  advances : c.Advances c'
  every : s.Every unbroken
  span : s.span = c'.spanFrom c.span

/-- Both readers of the grammar make progress from every cursor. -/
structure Grammar.Progresses (g : Grammar) : Prop where
  statement (c : Cursor) : Outcome c (fun s c' => s.Covers c c') (g.statement c)
  expression (min : Precedence) (c : Cursor) :
    Outcome c (fun e c' => e.Covers c c') (g.expression min c)

namespace Grammar

variable {g : Grammar} {c c' : Cursor}

/-! ## Primary expressions -/

/-- A faithful token of such a kind has its value. -/
theorem literal_outcome (kind : c.peek.shape.isLiteral = true) :
    Outcome c (fun e c' => e.Covers c c' ∧ e.isLiteral = true) (literal c) := by
  have inner : c.peek.kind ≠ .endOfFile := by
    intro ended
    simp [Shape.isLiteral, ended] at kind
  have further := Cursor.advances_next rfl inner
  simp only [literal, advance_bind]
  cases found : c.peek.literal with
  | none =>
      refine .error_at (.refl c) further.reaches rfl fun faithful => ?_
      obtain ⟨value, some⟩ := (faithful.peek inner).exists_literal kind
      rw [Token.shape_literal, found] at some
      cases some
  | some value =>
      refine .ok further.reaches ⟨⟨further, trivial, fun ordered => ?_⟩, rfl⟩
      exact (ordered.spanFrom_next further).symm

theorem ident_outcome (begins : c.peek.kind = .identifier) :
    Outcome c (fun e c' => e.Covers c c') (ident c) := by
  have further := Cursor.advances_next begins (by decide)
  simp only [ident, advance_bind]
  exact .ok further.reaches ⟨further, trivial, fun ordered => (ordered.spanFrom_next further).symm⟩

namespace Progresses

theorem group (progress : g.Progresses) (begins : c.peek.kind = .leftParen) :
    Outcome c (fun e c' => e.Covers c c') (g.group c) := by
  have first := Cursor.advances_next begins (by decide)
  simp only [Grammar.group, here_bind, discard_advance_bind]
  refine ((progress.expression .lowest c.next).bind fun there read => ?_).earlier first.reaches
  simp only [discard_expect_bind, spanFrom_bind, pure_run]
  refine .expect (by decide) (by decide) fun _ last => .ok (.refl _) ?_
  exact ⟨first.trans (there.trans last.reaches), ⟨trivial, read.every⟩, fun _ => rfl⟩

theorem unary (progress : g.Progresses) (op : UnaryOp) (inner : c.peek.kind ≠ .endOfFile) :
    Outcome c (fun e c' => e.Covers c c') (g.unary op c) := by
  have first := Cursor.advances_next rfl inner
  simp only [Grammar.unary, here_bind, discard_advance_bind]
  refine ((progress.expression .unary c.next).bind fun there read => ?_).earlier first.reaches
  simp only [spanFrom_bind, pure_run]
  exact .ok (.refl _) ⟨first.trans there, ⟨trivial, read.every⟩, fun _ => rfl⟩

theorem await (progress : g.Progresses) (begins : c.peek.kind = .awaitWord) :
    Outcome c (fun e c' => e.Covers c c') (g.await c) := by
  have first := Cursor.advances_next begins (by decide)
  simp only [Grammar.await, here_bind, discard_advance_bind]
  refine ((progress.expression .unary c.next).bind fun there read => ?_).earlier first.reaches
  simp only [spanFrom_bind, pure_run]
  exact .ok (.refl _) ⟨first.trans there, ⟨trivial, read.every⟩, fun _ => rfl⟩

/-! ## Blocks -/

theorem block (progress : g.Progresses) (c : Cursor) :
    Outcome c (fun body c' => c.Advances c' ∧ bodyEvery unbroken body) (g.block c) := by
  simp only [Grammar.block, discard_expect_bind]
  refine .expect (by decide) (by decide) fun _ opens => ?_
  have statements := Outcome.items fun c =>
    (progress.statement c).imp fun read => ⟨read.advances, read.every⟩
  refine (statements c.next).bind fun there all => ?_
  simp only [discard_expect_bind, pure_run]
  refine .expect (by decide) (by decide) fun _ closes => .ok (.refl _) ?_
  exact ⟨opens.trans (there.trans closes.reaches), bodyEvery_iff.mpr all⟩

theorem blockStatement (progress : g.Progresses) (c : Cursor) :
    Outcome c (fun s c' => s.Covers c c' ∧ s.isBlock = true) (g.blockStatement c) := by
  simp only [Grammar.blockStatement, here_bind]
  refine (progress.block c).bind fun _ read => ?_
  simp only [spanFrom_bind, pure_run]
  exact .ok (.refl _) ⟨⟨read.1, ⟨rfl, read.2⟩, rfl⟩, rfl⟩

end Progresses

/-! ## Selections -/

/-- The number behind a minus. If it is none, the error shows at both. -/
theorem negatedNumber_outcome (begins : c.peek.kind = .minus) :
    Outcome c (fun e c' => e.Covers c c' ∧ e.isLiteral = true) (negatedNumber c) := by
  have first := Cursor.advances_next begins (by decide)
  simp only [negatedNumber, here_bind, discard_advance_bind, sees_bind, ite_run, decide_eq_true_eq,
    unexpected_run]
  split
  · rename_i number
    have second := Cursor.advances_next number (by decide)
    have both := first.trans second.reaches
    -- A faithful token of this kind has a value and the value is a number.
    have unfaithful (other : ∀ x, c.next.peek.literal ≠ some (.number x)) : ¬c.Faithful := by
      intro faithful
      have token := (faithful.reaches first.reaches).peek (by simp [number])
      obtain ⟨x, found⟩ := token.number.mpr number
      exact other x found
    simp only [negatedLiteral, literal, bind_assoc_run, advance_bind]
    cases found : c.next.peek.literal with
    | none =>
        exact .error_at first.reaches second.reaches rfl fun faithful =>
          (unfaithful (by simp [found]) faithful).elim
    | some value =>
        cases value with
        | number x => exact .ok both.reaches ⟨⟨both, trivial, fun _ => rfl⟩, rfl⟩
        | _ =>
            exact .error ⟨both.reaches, fun _ => .stretch (.refl c) both (.refl _),
              fun faithful => (unfaithful (by simp [found]) faithful).elim⟩
  · exact (Outcome.fail c.next (by decide)).earlier first.reaches

theorem pattern_outcome (c : Cursor) :
    Outcome c (fun e c' => e.Covers c c' ∧ e.isLiteral = true) (pattern c) := by
  simp only [pattern, peek_bind]
  cases begins : c.peek.kind
  case minus => exact negatedNumber_outcome begins
  case number | string | trueWord | falseWord | nullWord =>
    exact literal_outcome (by simp [Shape.isLiteral, begins])
  all_goals exact .fail c (by decide)

theorem armPattern_outcome (c : Cursor) :
    Outcome c (fun r c' => c.Advances c' ∧ ∀ p, r = some p → p.isLiteral = true)
      (armPattern c) := by
  simp only [armPattern, accept_bind]
  split
  · rename_i word
    have further := Cursor.advances_next word (by decide)
    exact .ok further.reaches ⟨further, by simp⟩
  · exact (pattern_outcome c).map fun read => ⟨read.1.advances, by simpa using read.2⟩

theorem armEnd_outcome (c : Cursor) : Outcome c (fun _ _ => True) (armEnd c) := by
  simp only [armEnd, accept_bind]
  split
  · exact .ok c.reaches_next trivial
  · show Outcome c _ (discard (accept .semicolon) c)
    rw [discard_accept_run]
    split
    · exact .ok c.reaches_next trivial
    · exact .ok (.refl c) trivial

namespace Progresses

theorem armBody (progress : g.Progresses) (c : Cursor) :
    Outcome c (fun s c' => c.Advances c' ∧ s.Every unbroken ∧
      (s.isBlock = true ∨ s.isExpression = true)) (g.armBody c) := by
  simp only [Grammar.armBody, sees_bind, ite_run, decide_eq_true_eq]
  split
  · exact (progress.blockStatement c).imp fun read => ⟨read.1.advances, read.1.every, .inl read.2⟩
  · simp only [Grammar.armValue]
    refine (progress.expression .lowest c).bind fun _ read => ?_
    exact .ok (.refl _) ⟨read.advances, ⟨rfl, read.every⟩, .inr rfl⟩

theorem arm (progress : g.Progresses) (c : Cursor) :
    Outcome c (fun a c' => c.Advances c' ∧ ((∀ p, a.pattern = some p → p.isLiteral = true) ∧
      a.body.Every unbroken) ∧ (a.body.isBlock = true ∨ a.body.isExpression = true))
      (g.arm c) := by
  simp only [Grammar.arm]
  refine (armPattern_outcome c).bind fun _ pattern => ?_
  simp only [discard_expect_bind]
  refine .expect (by decide) (by decide) fun _ arrow => ?_
  refine (progress.armBody _).bind fun there body => ?_
  refine (armEnd_outcome _).bind fun ended _ => .ok (.refl _) ?_
  exact ⟨pattern.1.trans (arrow.reaches.trans (there.trans ended)), ⟨pattern.2, body.2.1⟩, body.2.2⟩

theorem selection (progress : g.Progresses) (begins : c.peek.kind = .matchWord) :
    Outcome c (fun e c' => e.Covers c c') (g.selection c) := by
  have first := Cursor.advances_next begins (by decide)
  simp only [Grammar.selection, here_bind, discard_advance_bind]
  refine ((progress.expression .lowest c.next).bind fun there subject => ?_).earlier first.reaches
  simp only [discard_expect_bind]
  refine .expect (by decide) (by decide) fun _ opens => ?_
  refine (Outcome.items progress.arm _).bind fun inside arms => ?_
  simp only [discard_expect_bind, spanFrom_bind, pure_run]
  refine .expect (by decide) (by decide) fun _ closes =>
    .ok (.refl _) ⟨?_, ⟨?_, ?_, ?_⟩, fun _ => rfl⟩
  · exact first.trans (there.trans (opens.reaches.trans (inside.trans closes.reaches)))
  · exact fun a ha => (arms a ha).2
  · exact subject.every.ungrouped
  · exact armsEvery_iff.mpr fun a ha => (arms a ha).1

/-! ## Templates -/

theorem parts (progress : g.Progresses) {segments : List Segment} {parts : List Part}
    (h : segments.mapM g.part = .ok parts) : partsEvery unbroken parts := by
  induction segments generalizing parts with
  | nil =>
      cases h
      trivial
  | cons segment segments ih =>
      obtain ⟨part, rest, head, tail, rfl⟩ := parts_ok_cons.mp h
      cases segment with
      | text chars =>
          cases head
          have rest := ih tail
          exact rest
      | source place chars =>
          obtain ⟨e, run, rfl⟩ := part_source_ok.mp head
          obtain ⟨c', read, _⟩ := interpolation_ok.mp run
          have outcome := progress.expression .lowest (Cursor.ofTokens (tokensFrom place chars))
          rw [read] at outcome
          exact ⟨outcome.of_ok.2.every, ih tail⟩

/-- Whatever stands between the braces of a template, its tokens are faithful. -/
theorem interpolation_genuine (progress : g.Progresses) {place : Place} {source : List Char}
    {e : ParseError} (run : g.interpolation place source = .error e) : e.Genuine := by
  have here : (Cursor.ofTokens (tokensFrom place source)).Faithful :=
    .ofTokens fun _ => faithful_of_mem
  have inside := progress.expression .lowest (Cursor.ofTokens (tokensFrom place source))
  unfold Grammar.interpolation at run
  split at run
  · rename_i read
    cases run
    rw [read] at inside
    exact inside.of_error.genuine here
  · split at run <;> cases run
    exact Cursor.genuine_failure _ (by decide)

theorem parts_genuine (progress : g.Progresses) {segments : List Segment} {e : ParseError}
    (run : segments.mapM g.part = .error e) : e.Genuine := by
  induction segments with
  | nil => cases run
  | cons segment segments ih =>
      rcases parts_error_cons.mp run with first | ⟨part, _, rest⟩
      · cases segment with
        | text chars => cases first
        | source place chars => exact progress.interpolation_genuine (part_source_error.mp first)
      · exact ih rest

/-- A template is a single token, at which all errors inside it show. -/
theorem template (progress : g.Progresses) (begins : c.peek.kind = .template) :
    Outcome c (fun e c' => e.Covers c c') (g.template c) := by
  have further := Cursor.advances_next begins (by decide)
  simp only [Grammar.template, advance_bind]
  cases run : List.mapM g.part _ with
  | error e =>
      exact .error_at (.refl c) further.reaches rfl fun _ =>
        (progress.parts_genuine run).interpolation _
  | ok parts =>
      refine .ok further.reaches ⟨further, ⟨trivial, progress.parts run⟩, fun ordered => ?_⟩
      exact (ordered.spanFrom_next further).symm

/-! ## Operators -/

theorem operand (progress : g.Progresses) (c : Cursor) :
    Outcome c (fun e c' => e.Covers c c') (g.operand c) := by
  simp only [Grammar.operand, peek_bind]
  cases begins : c.peek.kind
  case number | string | trueWord | falseWord | nullWord =>
    exact (literal_outcome (by simp [Shape.isLiteral, begins])).imp And.left
  case template => exact progress.template begins
  case identifier => exact ident_outcome begins
  case leftParen => exact progress.group begins
  case matchWord => exact progress.selection begins
  case bang | minus | tilde => exact progress.unary _ (by simp [begins])
  case awaitWord => exact progress.await begins
  case invalid | endOfFile => exact .fail c (by decide)
  all_goals exact .error_at (.refl c) (.refl c) rfl fun _ => .of_single rfl rfl

section

/- The operand `left` was read from `start` to `c₁`, and the operator behind it from there
to `c`. -/
variable {start c₁ : Cursor} {left : Expr}

theorem callOf (progress : g.Progresses) (covers : left.Covers start c₁)
    (mark : c₁.Advances c) :
    Outcome c (fun e c' => c₁.Advances c' ∧ e.Covers start c') (g.callOf left c) := by
  simp only [Grammar.callOf]
  have args := Outcome.separated .rightParen fun c =>
    (progress.expression .lowest c).imp fun read => ⟨read.advances, read.every⟩
  refine (args c).bind fun there all => ?_
  simp only [discard_expect_bind, spanFrom_bind, pure_run]
  refine .expect (by decide) (by decide) fun _ closes => .ok (.refl _) ?_
  have further := mark.trans (there.trans closes.reaches)
  refine ⟨further, covers.advances.trans further.reaches,
    ⟨trivial, covers.every, argsEvery_iff.mpr all⟩, fun ordered => ?_⟩
  rw [Expr.span, covers.span ordered, Cursor.spanFrom_spanFrom further]

theorem memberOf_outcome (covers : left.Covers start c₁) (mark : c₁.Advances c) :
    Outcome c (fun e c' => c₁.Advances c' ∧ e.Covers start c') (memberOf left c) := by
  simp only [Grammar.memberOf, property, bind_assoc_run, peek_bind]
  split
  · simp only [bind_assoc_run, discard_advance_bind]
    have further := mark.trans c.reaches_next
    refine .ok c.reaches_next ⟨further, covers.advances.trans further.reaches,
      ⟨trivial, covers.every⟩, fun ordered => ?_⟩
    rw [Expr.span, covers.span ordered, Cursor.spanFrom_spanFrom further]
  · exact .fail c (by decide)

/-- What cannot be assigned to is an error of the operand that was read before. -/
theorem assignmentTo (progress : g.Progresses) (op : AssignOp) (covers : left.Covers start c₁)
    (mark : c₁.Advances c) :
    Outcome start (fun e c' => c₁.Advances c' ∧ e.Covers start c')
      (g.assignmentTo op left c) := by
  have there := covers.advances.reaches.trans mark.reaches
  simp only [Grammar.assignmentTo, ite_run]
  split
  · refine ((progress.expression .lowest c).bind fun _ value => .ok (.refl _) ?_).earlier there
    have further := mark.trans value.advances.reaches
    refine ⟨further, covers.advances.trans further.reaches,
      ⟨trivial, covers.every, value.every⟩, fun ordered => ?_⟩
    rw [Expr.span, covers.span ordered, value.span (ordered.reaches there)]
    exact ordered.merge_spanFrom covers.advances mark.reaches value.advances
  · refine .error ⟨there, fun ordered => ?_, fun _ => .of_single rfl rfl⟩
    rw [show (ParseError.assignmentTarget left.span).span = left.span from rfl,
      covers.span ordered]
    exact .stretch (.refl start) covers.advances mark.reaches

theorem operationOn (progress : g.Progresses) (op : BinaryOp) (min : Precedence)
    (covers : left.Covers start c₁) (mark : c₁.Advances c) :
    Outcome c (fun e c' => c₁.Advances c' ∧ e.Covers start c')
      (g.operationOn op min left c) := by
  have there := covers.advances.reaches.trans mark.reaches
  simp only [Grammar.operationOn]
  refine (progress.expression min c).bind fun _ right => .ok (.refl _) ?_
  have further := mark.trans right.advances.reaches
  refine ⟨further, covers.advances.trans further.reaches,
    ⟨trivial, covers.every, right.every⟩, fun ordered => ?_⟩
  rw [Expr.span, covers.span ordered, right.span (ordered.reaches there)]
  exact ordered.merge_spanFrom covers.advances mark.reaches right.advances

/-- The tables of operators agree, so nothing is left to the guard behind them. -/
theorem continuation (progress : g.Progresses) (covers : left.Covers start c₁)
    (operator : Precedence.lowest < Precedence.ofKind c₁.peek.kind) :
    Outcome start (fun e c' => c₁.Advances c' ∧ e.Covers start c')
      (g.continuation left c₁) := by
  have inner : c₁.peek.kind ≠ .endOfFile := by
    intro ended
    rw [ended] at operator
    revert operator
    decide
  have mark := Cursor.advances_next rfl inner
  have behind := covers.advances.reaches.trans mark.reaches
  rw [continuation_run]
  split
  · exact (progress.callOf covers mark).earlier behind
  · split
    · exact (memberOf_outcome covers mark).earlier behind
    · rename_i call member
      split
      · exact progress.assignmentTo _ covers mark
      · rename_i noAssignment
        split
        · exact (progress.operationOn _ _ covers mark).earlier behind
        · rename_i noOperation
          rcases (Precedence.lowest_lt_ofKind_iff _).mp operator with
            paren | dot | assigns | operates
          · exact (call paren).elim
          · exact (member dot).elim
          · rw [← AssignOp.isSome_ofKind?, noAssignment] at assigns
            cases assigns
          · rw [noOperation] at operates
            cases operates

/-- A chain that grows too high fails at the operator that was read last. -/
theorem extend (progress : g.Progresses) {room : Nat} {min : Precedence} {chain : Chain}
    (covers : chain.expr.Covers start c₁) :
    Outcome start (fun r c₂ =>
      (∀ chain', r = some chain' → c₁.Advances c₂ ∧ chain'.expr.Covers start c₂) ∧
        (r = none → c₂ = c₁)) (g.extend room min chain c₁) := by
  have there := covers.advances.reaches
  simp only [Grammar.extend, peek_bind, ite_run]
  split
  · exact .ok there ⟨by simp, fun _ => rfl⟩
  · rename_i tighter
    have operator := Precedence.lowest_lt_of_not_le tighter
    refine (progress.continuation covers operator).bind_seen fun {e c₂} behind read => ?_
    split
    · exact .error_at there read.1.reaches rfl fun _ => .of_single rfl rfl
    · refine .ok behind ⟨fun chain' same => ?_, by simp⟩
      cases same
      exact read

end

theorem chain (progress : g.Progresses) (room : Nat) (min : Precedence) (c : Cursor) :
    Outcome c (fun e c' => e.Covers c c') (g.chain room min c) := by
  simp only [Grammar.chain]
  refine (progress.operand c).bind_seen fun {first c₁} there covers => ?_
  have loop : Outcome c (fun (chain : Chain) c' => chain.expr.Covers c c')
      (iterate (g.extend room min) ⟨first, first.height⟩ c₁) :=
    .iterate (fun chain c₂ _ covers => progress.extend covers) there covers
  exact loop.bind_seen fun there whole => .ok there whole

end Progresses

/-! ## Variables -/

theorem typeName_outcome (c : Cursor) : Outcome c (fun _ _ => True) (typeName c) := by
  simp only [typeName, peek_bind, ite_run, discard_advance_bind, pure_run, unexpected_run]
  split
  · exact .ok c.reaches_next trivial
  · exact .fail c (by decide)

theorem typeBehind_outcome {mark : Kind} (inner : mark ≠ .endOfFile) (c : Cursor) :
    Outcome c (fun _ _ => True) (optionally mark typeName c) :=
  (Outcome.optionally mark inner typeName_outcome c).imp fun _ => trivial

namespace Progresses

theorem initialValue (progress : g.Progresses) (constant : Bool) (c : Cursor) :
    Outcome c (fun r _ => ∀ e, r = some e → e.Every unbroken) (g.initialValue constant c) := by
  simp only [Grammar.initialValue, accept_bind]
  split
  · refine ((progress.expression .lowest c.next).map fun read => ?_).earlier c.reaches_next
    simpa using read.every
  · cases constant with
    | true => exact .fail c (by decide)
    | false => exact .ok (.refl c) (by simp)

theorem declaration (progress : g.Progresses) (inner : c.peek.kind ≠ .endOfFile) :
    Outcome c (fun s c' => s.Covers c c') (g.declaration c) := by
  have first := Cursor.advances_next rfl inner
  simp only [Grammar.declaration, advance_bind, name_bind]
  refine (Outcome.expect (by decide) (by decide) fun _ name => ?_).earlier first.reaches
  refine (typeBehind_outcome (by decide) _).bind fun typed _ => ?_
  refine (progress.initialValue _ _).bind fun {initial _} there value => ?_
  simp only [discard_expect_bind, spanFrom_bind, pure_run]
  refine .expect (by decide) (by decide) fun _ closes => .ok (.refl _) ⟨?_, ?_, rfl⟩
  · exact first.trans (name.reaches.trans (typed.trans (there.trans closes.reaches)))
  · cases initial with
    | none => exact rfl
    | some e => exact ⟨rfl, value e rfl⟩

/-! ## Routines and classes -/

theorem parameter (progress : g.Progresses) (c : Cursor) :
    Outcome c (fun p c' => c.Advances c' ∧ ∀ e, p.default = some e → e.Every unbroken)
      (g.parameter c) := by
  simp only [Grammar.parameter, name_bind]
  refine .expect (by decide) (by decide) fun _ name => ?_
  refine (typeBehind_outcome (by decide) _).bind fun typed _ => ?_
  have default := Outcome.optionally .equal (by decide) fun c =>
    (progress.expression .assignment c).imp fun read => read.every
  refine (default _).bind fun there value => .ok (.refl _) ?_
  exact ⟨name.trans (typed.trans there), fun e he => (value e he).2⟩

theorem routine (progress : g.Progresses) (async : Bool) (c : Cursor) :
    Outcome c (fun r c' => c.Advances c' ∧ r.Every unbroken) (g.routine async c) := by
  simp only [Grammar.routine, name_bind]
  refine .expect (by decide) (by decide) fun _ name => ?_
  simp only [discard_expect_bind]
  refine .expect (by decide) (by decide) fun _ opens => ?_
  refine (Outcome.separated .rightParen progress.parameter _).bind fun inside params => ?_
  simp only [discard_expect_bind]
  refine .expect (by decide) (by decide) fun _ closes => ?_
  refine (typeBehind_outcome (by decide) _).bind fun typed _ => ?_
  refine (progress.block _).bind fun there body => .ok (.refl _) ⟨?_, ?_, body.2⟩
  · exact name.trans (opens.reaches.trans (inside.trans
      (closes.reaches.trans (typed.trans there))))
  · exact paramsEvery_iff.mpr params

theorem function (progress : g.Progresses) (async : Bool) (c : Cursor) :
    Outcome c (fun r c' => c.Advances c' ∧ r.Every unbroken) (g.function async c) := by
  simp only [Grammar.function, discard_expect_bind]
  refine .expect (by decide) (by decide) fun _ word => ?_
  exact (progress.routine async _).imp fun read => ⟨word.trans read.1.reaches, read.2⟩

theorem functionStatement (progress : g.Progresses) (c : Cursor) :
    Outcome c (fun s c' => s.Covers c c') (g.functionStatement c) := by
  simp only [Grammar.functionStatement, here_bind]
  refine (progress.function false c).bind fun _ read => ?_
  simp only [spanFrom_bind, pure_run]
  exact .ok (.refl _) ⟨read.1, ⟨rfl, read.2⟩, rfl⟩

theorem asyncStatement (progress : g.Progresses) (c : Cursor) :
    Outcome c (fun s c' => s.Covers c c') (g.asyncStatement c) := by
  simp only [Grammar.asyncStatement, here_bind, discard_advance_bind]
  refine ((progress.function true c.next).bind fun _ read => ?_).earlier c.reaches_next
  simp only [spanFrom_bind, pure_run]
  exact .ok (.refl _) ⟨c.reaches_next.trans_advances read.1, ⟨rfl, read.2⟩, rfl⟩

theorem method (progress : g.Progresses) (c : Cursor) :
    Outcome c (fun r c' => c.Advances c' ∧ r.Every unbroken) (g.method c) := by
  have word : ∀ {kind : Kind} (c : Cursor),
      c.Reaches (if c.peek.kind = kind then c.next else c) := by
    intro kind c
    split
    · exact c.reaches_next
    · exact .refl c
  have rest : ∀ {async : Bool} {c₁ : Cursor}, c.Reaches c₁ →
      Outcome c (fun r c' => c.Advances c' ∧ r.Every unbroken) (g.routine async c₁) := by
    intro async c₁ there
    refine ((progress.routine async c₁).imp fun read => ?_).earlier there
    exact ⟨there.trans_advances read.1, read.2⟩
  simp only [Grammar.method, accept_bind, discard_accept_bind]
  split
  · exact rest (c.reaches_next.trans (word c.next))
  · exact rest (word c)

theorem classStatement (progress : g.Progresses) (inner : c.peek.kind ≠ .endOfFile) :
    Outcome c (fun s c' => s.Covers c c') (g.classStatement c) := by
  have first := Cursor.advances_next rfl inner
  simp only [Grammar.classStatement, here_bind, discard_advance_bind, name_bind]
  refine (Outcome.expect (by decide) (by decide) fun _ name => ?_).earlier first.reaches
  simp only [discard_expect_bind]
  refine .expect (by decide) (by decide) fun _ opens => ?_
  refine (Outcome.items progress.method _).bind fun inside methods => ?_
  simp only [discard_expect_bind, spanFrom_bind, pure_run]
  refine .expect (by decide) (by decide) fun _ closes => .ok (.refl _) ⟨?_, ⟨rfl, ?_⟩, rfl⟩
  · exact first.trans (name.reaches.trans (opens.reaches.trans (inside.trans closes.reaches)))
  · exact routinesEvery_iff.mpr methods

/-! ## Control flow -/

theorem alternative (progress : g.Progresses) (c : Cursor) :
    Outcome c (fun s _ => s.Every unbroken) (g.alternative c) := by
  simp only [Grammar.alternative, sees_bind, ite_run, decide_eq_true_eq]
  split
  · exact (progress.statement c).imp fun read => read.every
  · exact (progress.blockStatement c).imp fun read => read.1.every

theorem conditional (progress : g.Progresses) (c : Cursor) :
    Outcome c (fun s c' => s.Covers c c') (g.conditional c) := by
  simp only [Grammar.conditional, here_bind, discard_advance_bind]
  refine ((progress.expression .lowest c.next).bind fun there condition => ?_).earlier
    c.reaches_next
  refine (progress.block _).bind fun inside body => ?_
  refine (Outcome.optionally .elseWord (by decide) progress.alternative _).bind
    fun {otherwise _} behind holds => ?_
  simp only [spanFrom_bind, pure_run]
  refine .ok (.refl _) ⟨?_, ?_, rfl⟩
  · exact c.reaches_next.trans_advances (condition.advances.trans (inside.trans behind))
  · cases otherwise with
    | none => exact ⟨rfl, condition.every.ungrouped, body.2⟩
    | some s => exact ⟨rfl, condition.every.ungrouped, body.2, (holds s rfl).2⟩

theorem caughtName_outcome (c : Cursor) : Outcome c (fun _ _ => True) (caughtName c) := by
  simp only [caughtName, name_bind, discard_expect_bind, pure_run]
  refine .expect (by decide) (by decide) fun _ _ => ?_
  exact .expect (by decide) (by decide) fun _ _ => .ok (.refl _) trivial

theorem handler (progress : g.Progresses) (c : Cursor) :
    Outcome c (fun h _ => bodyEvery unbroken h.body) (g.handler c) := by
  simp only [Grammar.handler]
  refine (Outcome.optionally .leftParen (by decide) caughtName_outcome c).bind fun _ _ => ?_
  exact (progress.block _).bind fun _ body => .ok (.refl _) body.2

theorem attempt (progress : g.Progresses) (c : Cursor) :
    Outcome c (fun s c' => s.Covers c c') (g.attempt c) := by
  simp only [Grammar.attempt, here_bind, discard_advance_bind]
  refine ((progress.block c.next).bind fun there body => ?_).earlier c.reaches_next
  refine (Outcome.optionally .catchWord (by decide) progress.handler _).bind
    fun {handler _} caught handlers => ?_
  have cleanups := Outcome.optionally .finallyWord (by decide) fun c =>
    (progress.block c).imp And.right
  refine (cleanups _).bind fun {cleanup _} cleaned cleanups => ?_
  split
  · exact .fail _ (by decide)
  · refine .ok (.refl _) ⟨?_, ⟨rfl, body.2, ?_, ?_⟩, rfl⟩
    · exact c.reaches_next.trans_advances (body.1.trans (caught.trans cleaned))
    · cases handler with
      | none => trivial
      | some h =>
          obtain ⟨binding, statements⟩ := h
          exact (handlers _ rfl).2
    · cases cleanup with
      | none => trivial
      | some statements => exact (cleanups statements rfl).2

theorem returning (progress : g.Progresses) (inner : c.peek.kind ≠ .endOfFile) :
    Outcome c (fun s c' => s.Covers c c') (g.returning c) := by
  have first := Cursor.advances_next rfl inner
  have value : Outcome c.next (fun r _ => ∀ e, r = some e → e.Every unbroken)
      (g.returnValue c.next) := by
    simp only [Grammar.returnValue, sees_bind, ite_run, decide_eq_true_eq]
    split
    · exact .ok (.refl _) (by simp)
    · exact (progress.expression .lowest c.next).map fun read => by simpa using read.every
  simp only [Grammar.returning, here_bind, discard_advance_bind]
  refine (value.bind fun {value _} there holds => ?_).earlier first.reaches
  simp only [discard_expect_bind, spanFrom_bind, pure_run]
  refine .expect (by decide) (by decide) fun _ closes => .ok (.refl _) ⟨?_, ?_, rfl⟩
  · exact first.trans (there.trans closes.reaches)
  · cases value with
    | none => exact rfl
    | some e => exact ⟨rfl, holds e rfl⟩

theorem expressionStatement (progress : g.Progresses) (c : Cursor) :
    Outcome c (fun s c' => s.Covers c c') (g.expressionStatement c) := by
  simp only [Grammar.expressionStatement, here_bind]
  refine (progress.expression .lowest c).bind fun {value c₁} _ read => ?_
  simp only [accept_bind]
  split
  · exact .ok c₁.reaches_next ⟨read.advances.trans c₁.reaches_next, ⟨rfl, read.every⟩, rfl⟩
  · simp only [Bool.false_eq_true, false_or]
    split
    · exact .ok (.refl _) ⟨read.advances, ⟨rfl, read.every⟩, rfl⟩
    · exact .fail _ (by decide)

/-! ## Levels -/

theorem anyStatement (progress : g.Progresses) (c : Cursor) :
    Outcome c (fun s c' => s.Covers c c') (g.anyStatement c) := by
  simp only [Grammar.anyStatement, peek_bind]
  cases begins : c.peek.kind
  case functionWord => exact progress.functionStatement c
  case asyncWord => exact progress.asyncStatement c
  case classWord => exact progress.classStatement (by simp [begins])
  case constWord | letWord => exact progress.declaration (by simp [begins])
  case ifWord => exact progress.conditional c
  case tryWord => exact progress.attempt c
  case returnWord => exact progress.returning (by simp [begins])
  case leftBrace => exact (progress.blockStatement c).imp And.left
  all_goals exact progress.expressionStatement c

theorem nest (progress : g.Progresses) (room : Nat) : (g.nest room).Progresses where
  statement := progress.anyStatement
  expression := progress.chain room

end Progresses

/-- Every grammar built by levels makes progress. -/
theorem progresses_ofRoom (room : Nat) : (ofRoom room).Progresses := by
  induction room with
  | zero =>
      have deep : ∀ {α : Type} {good : α → Cursor → Prop} (c : Cursor),
          Outcome c good (exhausted c) :=
        fun c => .error_at (.refl c) (.refl c) rfl fun _ => .of_single rfl rfl
      exact ⟨fun c => deep c, fun _ c => deep c⟩
  | succ room ih => exact ih.nest room

end Grammar

end TwoScript
