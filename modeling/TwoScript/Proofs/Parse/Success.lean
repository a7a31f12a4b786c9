import TwoScript.Parse.Statement
import TwoScript.Proofs.Parse.Run
import TwoScript.Proofs.Parse.Yield

/-!
# When readers succeed

For each reader of the grammar, the exact condition under which it succeeds and what
it then gives. Proofs about trees use these and do not open the readers again.
-/

namespace TwoScript

namespace Grammar

open TwoScript.Parser

variable {g : Grammar} {c c' : Cursor}

/-! ## Blocks -/

theorem block_ok {body : List Statement} : g.block c = .ok body c' ↔
    c.peek.kind = .leftBrace ∧ ∃ ss c₁, items g.statement c.next = .ok ss c₁ ∧
      c₁.peek.kind = .rightBrace ∧ ss = body ∧ c₁.next = c' := by
  simp only [block, bind_ok, discard_expect_bind, pure_run, guarded_ok, ok_iff]

theorem blockStatement_ok {s : Statement} : g.blockStatement c = .ok s c' ↔
    ∃ body c₁, g.block c = .ok body c₁ ∧ .block (c₁.spanFrom c.span) body = s ∧ c₁ = c' := by
  simp only [blockStatement, bind_ok, here_bind, spanFrom_bind, pure_run, ok_iff]

/-! ## Primary expressions -/

theorem literal_ok {e : Expr} : literal c = .ok e c' ↔
    ∃ value, c.peek.literal = some value ∧ .literal c.peek.span value = e ∧ c.next = c' := by
  simp only [literal, advance_bind]
  cases c.peek.literal <;> simp [pure_run, throw_run]

theorem ident_ok {e : Expr} : ident c = .ok e c' ↔
    .ident c.peek.span c.peek.text = e ∧ c.next = c' := by
  simp only [ident, advance_bind, pure_run, ok_iff]

theorem group_ok {e : Expr} : g.group c = .ok e c' ↔
    ∃ inner c₁, g.expression .lowest c.next = .ok inner c₁ ∧ c₁.peek.kind = .rightParen ∧
      .group (c₁.next.spanFrom c.span) inner = e ∧ c₁.next = c' := by
  simp only [group, bind_ok, here_bind, discard_advance_bind, discard_expect_bind, spanFrom_bind,
    pure_run, guarded_ok, ok_iff]

theorem unary_ok {op : UnaryOp} {e : Expr} : g.unary op c = .ok e c' ↔
    ∃ operand c₁, g.expression .unary c.next = .ok operand c₁ ∧
      .unary (c₁.spanFrom c.span) op operand = e ∧ c₁ = c' := by
  simp only [unary, bind_ok, here_bind, discard_advance_bind, spanFrom_bind, pure_run, ok_iff]

theorem await_ok {e : Expr} : g.await c = .ok e c' ↔
    ∃ operand c₁, g.expression .unary c.next = .ok operand c₁ ∧
      .await (c₁.spanFrom c.span) operand = e ∧ c₁ = c' := by
  simp only [await, bind_ok, here_bind, discard_advance_bind, spanFrom_bind, pure_run, ok_iff]

/-! ## Selections -/

theorem negatedLiteral_ok {start : Span} {e : Expr} : negatedLiteral start c = .ok e c' ↔
    ∃ x, c.peek.literal = some (.number x) ∧
      .literal (c.next.spanFrom start) (.number x.negate) = e ∧ c.next = c' := by
  simp only [negatedLiteral, bind_ok, literal_ok, spanFrom_bind]
  constructor
  · rintro ⟨_, _, ⟨value, found, rfl, rfl⟩, h⟩
    cases value with
    | number x => exact ⟨x, found, ok_iff.mp h⟩
    | string _ => cases h
    | boolean _ => cases h
    | null => cases h
  · rintro ⟨x, found, rfl, rfl⟩
    exact ⟨_, _, ⟨_, found, rfl, rfl⟩, rfl⟩

theorem negatedNumber_ok {e : Expr} : negatedNumber c = .ok e c' ↔
    c.next.peek.kind = .number ∧ negatedLiteral c.span c.next = .ok e c' := by
  simp only [negatedNumber, here_bind, discard_advance_bind, sees_bind, ite_run, decide_eq_true_eq,
    unexpected_run, guarded_ok]

theorem pattern_ok {e : Expr} : pattern c = .ok e c' ↔
    (c.peek.kind = .minus ∧ negatedNumber c = .ok e c') ∨
      ((c.peek.kind = .number ∨ c.peek.kind = .string ∨ c.peek.kind = .trueWord ∨
        c.peek.kind = .falseWord ∨ c.peek.kind = .nullWord) ∧ literal c = .ok e c') := by
  simp only [pattern, peek_bind]
  cases c.peek.kind <;> simp [unexpected_run]

theorem armPattern_ok {r : Option Expr} : armPattern c = .ok r c' ↔
    (c.peek.kind = .defaultWord ∧ none = r ∧ c.next = c') ∨
      (c.peek.kind ≠ .defaultWord ∧ ∃ e, pattern c = .ok e c' ∧ some e = r) := by
  by_cases h : c.peek.kind = .defaultWord
  · simp [armPattern, accept_bind, h, pure_run]
  · simp [armPattern, accept_bind, h, map_ok]

theorem armValue_ok {s : Statement} : g.armValue c = .ok s c' ↔
    ∃ value, g.expression .lowest c = .ok value c' ∧ .expression value.span value = s := by
  simp only [armValue, bind_ok, pure_run, ok_iff]
  constructor
  · rintro ⟨value, c₁, h, rfl, rfl⟩
    exact ⟨value, h, rfl⟩
  · rintro ⟨value, h, rfl⟩
    exact ⟨value, c', h, rfl, rfl⟩

theorem armBody_ok {s : Statement} : g.armBody c = .ok s c' ↔
    (c.peek.kind = .leftBrace ∧ g.blockStatement c = .ok s c') ∨
      (c.peek.kind ≠ .leftBrace ∧ g.armValue c = .ok s c') := by
  by_cases h : c.peek.kind = .leftBrace <;> simp [armBody, sees_bind, h]

theorem armEnd_ok {u : Unit} : armEnd c = .ok u c' ↔
    (if c.peek.kind = .comma ∨ c.peek.kind = .semicolon then c.next else c) = c' := by
  by_cases comma : c.peek.kind = .comma
  · simp [armEnd, accept_bind, comma, pure_run]
  · simp [armEnd, accept_bind, comma, discard_accept_run]

theorem arm_ok {a : Arm} : g.arm c = .ok a c' ↔
    ∃ pattern c₁, armPattern c = .ok pattern c₁ ∧ c₁.peek.kind = .arrow ∧
      ∃ body c₂, g.armBody c₁.next = .ok body c₂ ∧
        ∃ u c₃, armEnd c₂ = .ok u c₃ ∧ ⟨pattern, body⟩ = a ∧ c₃ = c' := by
  simp only [arm, bind_ok, discard_expect_bind, pure_run, guarded_ok, ok_iff]

theorem selection_ok {e : Expr} : g.selection c = .ok e c' ↔
    ∃ subject c₁, g.expression .lowest c.next = .ok subject c₁ ∧ c₁.peek.kind = .leftBrace ∧
      ∃ arms c₂, items g.arm c₁.next = .ok arms c₂ ∧ c₂.peek.kind = .rightBrace ∧
        .select (c₂.next.spanFrom c.span) subject.ungrouped arms = e ∧ c₂.next = c' := by
  simp only [selection, bind_ok, here_bind, discard_advance_bind, discard_expect_bind,
    spanFrom_bind, pure_run, guarded_ok, ok_iff]

/-! ## Templates -/

theorem interpolation_ok {place : Place} {source : List Char} {e : Expr} :
    g.interpolation place source = .ok e ↔
      ∃ c', g.expression .lowest (Cursor.ofTokens (tokensFrom place source)) = .ok e c' ∧
        c'.ahead = [] := by
  unfold interpolation
  cases g.expression .lowest (Cursor.ofTokens (tokensFrom place source)) with
  | error e' c₁ => simp
  | ok e' c₁ =>
      by_cases ended : c₁.ahead = []
      · simp [Cursor.atEnd, ended, and_assoc]
      · simp [Cursor.atEnd, ended]

theorem part_source_ok {place : Place} {source : List Char} {part : Part} :
    g.part (.source place source) = .ok part ↔
      ∃ e, g.interpolation place source = .ok e ∧ .expr e = part := by
  rw [Grammar.part]
  cases g.interpolation place source with
  | error cause => simp [Except.map]
  | ok e => simp [Except.map]

/-- A list of segments gives the parts of its members. -/
theorem parts_ok_cons {segment : Segment} {segments : List Segment} {parts : List Part} :
    (segment :: segments).mapM g.part = .ok parts ↔
      ∃ part rest, g.part segment = .ok part ∧ segments.mapM g.part = .ok rest ∧
        part :: rest = parts := by
  rw [List.mapM_cons]
  cases g.part segment with
  | error e => simp [bind, Except.bind]
  | ok part =>
      cases segments.mapM g.part with
      | error e => simp [bind, Except.bind]
      | ok rest => simp [bind, Except.bind, pure, Except.pure]

theorem part_source_error {place : Place} {source : List Char} {e : ParseError} :
    g.part (.source place source) = .error e ↔ g.interpolation place source = .error e := by
  rw [Grammar.part]
  cases g.interpolation place source <;> simp [Except.map]

/-- The parts of a template fail with the first of them that fails. -/
theorem parts_error_cons {segment : Segment} {segments : List Segment} {e : ParseError} :
    (segment :: segments).mapM g.part = .error e ↔
      g.part segment = .error e ∨
        ∃ part, g.part segment = .ok part ∧ segments.mapM g.part = .error e := by
  rw [List.mapM_cons]
  cases g.part segment with
  | error e => simp [bind, Except.bind]
  | ok part =>
      cases segments.mapM g.part with
      | error e => simp [bind, Except.bind]
      | ok rest => simp [bind, Except.bind, pure, Except.pure]

theorem template_ok {e : Expr} : g.template c = .ok e c' ↔
    ∃ parts, (templateSegments ⟨c.peek.span.start + 1, c.peek.span.line⟩
        (templateBody c.peek)).mapM g.part = .ok parts ∧
      .template c.peek.span parts = e ∧ c.next = c' := by
  simp only [template, advance_bind]
  cases List.mapM g.part _ with
  | ok parts => simp [pure_run]
  | error e => simp [throw_run]

/-! ## Operators -/

/-- The token that begins an operand says which reader reads it. -/
theorem operand_ok {e : Expr} : g.operand c = .ok e c' ↔
    (c.peek.shape.isLiteral = true ∧ literal c = .ok e c') ∨
      (c.peek.kind = .template ∧ g.template c = .ok e c') ∨
      (c.peek.kind = .identifier ∧ ident c = .ok e c') ∨
      (c.peek.kind = .leftParen ∧ g.group c = .ok e c') ∨
      (c.peek.kind = .matchWord ∧ g.selection c = .ok e c') ∨
      (∃ op, UnaryOp.ofKind? c.peek.kind = some op ∧ g.unary op c = .ok e c') ∨
      (c.peek.kind = .awaitWord ∧ g.await c = .ok e c') := by
  simp only [operand, peek_bind, Shape.isLiteral_iff, Token.shape_kind]
  cases c.peek.kind <;> simp [UnaryOp.ofKind?, unexpected_run, throw_run]

theorem property_ok {name : String} : property c = .ok name c' ↔
    (c.peek.kind = .identifier ∨ (keyword? c.peek.text).isSome) ∧ c.peek.text = name ∧
      c.next = c' := by
  simp only [property, peek_bind, ite_run, discard_advance_bind, pure_run, unexpected_run,
    guarded_ok, ok_iff]

theorem callOf_ok {callee e : Expr} : g.callOf callee c = .ok e c' ↔
    ∃ args c₁, separated .rightParen (g.expression .lowest) c = .ok args c₁ ∧
      c₁.peek.kind = .rightParen ∧ .call (c₁.next.spanFrom callee.span) callee args = e ∧
      c₁.next = c' := by
  simp only [callOf, bind_ok, discard_expect_bind, spanFrom_bind, pure_run, guarded_ok, ok_iff]

theorem memberOf_ok {object e : Expr} : memberOf object c = .ok e c' ↔
    ∃ name c₁, property c = .ok name c₁ ∧
      .member (c₁.spanFrom object.span) object name = e ∧ c₁ = c' := by
  simp only [memberOf, bind_ok, spanFrom_bind, pure_run, ok_iff]

theorem assignmentTo_ok {op : AssignOp} {target e : Expr} :
    g.assignmentTo op target c = .ok e c' ↔
      target.isAssignable = true ∧ ∃ value c₁, g.expression .lowest c = .ok value c₁ ∧
        .assign (target.span.merge value.span) op target value = e ∧ c₁ = c' := by
  simp only [assignmentTo, ite_run, throw_run, guarded_ok, bind_ok, pure_run, ok_iff]

theorem operationOn_ok {op : BinaryOp} {min : Precedence} {left e : Expr} :
    g.operationOn op min left c = .ok e c' ↔
      ∃ right c₁, g.expression min c = .ok right c₁ ∧
        .binary (left.span.merge right.span) op left right = e ∧ c₁ = c' := by
  simp only [operationOn, bind_ok, pure_run, ok_iff]

/-- What a continuation does depends on the kind of the operator alone. -/
theorem continuation_run (left : Expr) : g.continuation left c =
    if c.peek.kind = .leftParen then g.callOf left c.next
    else if c.peek.kind = .dot then memberOf left c.next
    else match AssignOp.ofKind? c.peek.kind with
      | some op => g.assignmentTo op left c.next
      | none =>
        match BinaryOp.ofKind? c.peek.kind with
        | some op => g.operationOn op (Precedence.ofKind c.peek.kind) left c.next
        | none => .error (.unexpected .operator c.peek.text c.peek.span) c.next := by
  simp only [continuation, advance_bind]
  cases c.peek.kind <;> rfl

theorem continuation_ok {left e : Expr} : g.continuation left c = .ok e c' ↔
    (c.peek.kind = .leftParen ∧ g.callOf left c.next = .ok e c') ∨
      (c.peek.kind = .dot ∧ memberOf left c.next = .ok e c') ∨
      (∃ op, AssignOp.ofKind? c.peek.kind = some op ∧
        g.assignmentTo op left c.next = .ok e c') ∨
      (∃ op, BinaryOp.ofKind? c.peek.kind = some op ∧
        g.operationOn op (Precedence.ofKind c.peek.kind) left c.next = .ok e c') := by
  simp only [continuation, advance_bind]
  cases c.peek.kind <;> simp [AssignOp.ofKind?, BinaryOp.ofKind?, throw_run]

theorem extend_ok {room : Nat} {min : Precedence} {chain : Chain} {r : Option Chain} :
    g.extend room min chain c = .ok r c' ↔
      (Precedence.ofKind c.peek.kind ≤ min ∧ none = r ∧ c = c') ∨
        (¬Precedence.ofKind c.peek.kind ≤ min ∧
          ∃ e, g.continuation chain.expr c = .ok e c' ∧
            1 + max chain.height e.trailingHeight ≤ room ∧
            some ⟨e, 1 + max chain.height e.trailingHeight⟩ = r) := by
  simp only [extend, peek_bind, ite_run]
  by_cases h : Precedence.ofKind c.peek.kind ≤ min
  · simp [h, pure_run]
  · simp only [h, if_false, bind_ok, ite_run, throw_run, pure_run, unless_ok, ok_iff, Nat.not_lt]
    constructor
    · rintro ⟨e, c₁, run, fits, rfl, rfl⟩
      exact .inr ⟨not_false, e, run, fits, rfl⟩
    · rintro (⟨absurd, _⟩ | ⟨_, e, run, fits, rfl⟩)
      · exact absurd.elim
      · exact ⟨e, c', run, fits, rfl, rfl⟩

theorem chain_ok {room : Nat} {min : Precedence} {e : Expr} : g.chain room min c = .ok e c' ↔
    ∃ first c₁, g.operand c = .ok first c₁ ∧
      ∃ whole c₂, iterate (g.extend room min) ⟨first, first.height⟩ c₁ = .ok whole c₂ ∧
        whole.expr = e ∧ c₂ = c' := by
  simp only [chain, bind_ok, pure_run, ok_iff]

/-! ## Variables -/

theorem typeName_ok {name : String} : typeName c = .ok name c' ↔
    (c.peek.kind = .identifier ∨ c.peek.kind = .nullWord) ∧ c.peek.text = name ∧
      c.next = c' := by
  simp only [typeName, peek_bind, ite_run, discard_advance_bind, pure_run, unexpected_run,
    guarded_ok, ok_iff]

theorem initialValue_ok {constant : Bool} {r : Option Expr} :
    g.initialValue constant c = .ok r c' ↔
      (c.peek.kind = .equal ∧ ∃ e, g.expression .lowest c.next = .ok e c' ∧ some e = r) ∨
        (c.peek.kind ≠ .equal ∧ constant = false ∧ none = r ∧ c = c') := by
  by_cases h : c.peek.kind = .equal
  · simp [initialValue, accept_bind, h, map_ok]
  · cases constant <;> simp [initialValue, accept_bind, h, pure_run, unexpected_run]

theorem declaration_ok {s : Statement} : g.declaration c = .ok s c' ↔
    c.next.peek.kind = .identifier ∧ ∃ type c₁, typeAnnotation c.next.next = .ok type c₁ ∧
      ∃ initial c₂, g.initialValue (decide (c.peek.kind ≠ .letWord)) c₁ = .ok initial c₂ ∧
        c₂.peek.kind = .semicolon ∧
        .declare (c₂.next.spanFrom c.peek.span) (decide (c.peek.kind ≠ .letWord))
          c.next.peek.text type initial = s ∧
        c₂.next = c' := by
  simp only [declaration, bind_ok, advance_bind, name_bind, discard_expect_bind, spanFrom_bind,
    pure_run, guarded_ok, ok_iff]

/-! ## Routines and classes -/

theorem parameter_ok {p : Parameter} : g.parameter c = .ok p c' ↔
    c.peek.kind = .identifier ∧ ∃ type c₁, typeAnnotation c.next = .ok type c₁ ∧
      ∃ default c₂, optionally .equal (g.expression .assignment) c₁ = .ok default c₂ ∧
        ⟨c.peek.text, type, default⟩ = p ∧ c₂ = c' := by
  simp only [parameter, bind_ok, name_bind, pure_run, guarded_ok, ok_iff]

theorem routine_ok {async : Bool} {r : Routine} : g.routine async c = .ok r c' ↔
    c.peek.kind = .identifier ∧ c.next.peek.kind = .leftParen ∧
      ∃ params c₁, separated .rightParen g.parameter c.next.next = .ok params c₁ ∧
        c₁.peek.kind = .rightParen ∧
        ∃ returns c₂, optionally .arrow typeName c₁.next = .ok returns c₂ ∧
          ∃ body c₃, g.block c₂ = .ok body c₃ ∧
            ⟨c.peek.text, params, returns, body, async⟩ = r ∧ c₃ = c' := by
  simp only [routine, bind_ok, name_bind, discard_expect_bind, pure_run, guarded_ok, ok_iff]

theorem function_ok {async : Bool} {r : Routine} : g.function async c = .ok r c' ↔
    c.peek.kind = .functionWord ∧ g.routine async c.next = .ok r c' := by
  simp only [function, discard_expect_bind, guarded_ok]

theorem functionStatement_ok {s : Statement} : g.functionStatement c = .ok s c' ↔
    ∃ r c₁, g.function false c = .ok r c₁ ∧ .function (c₁.spanFrom c.span) r = s ∧ c₁ = c' := by
  simp only [functionStatement, bind_ok, here_bind, spanFrom_bind, pure_run, ok_iff]

theorem asyncStatement_ok {s : Statement} : g.asyncStatement c = .ok s c' ↔
    ∃ r c₁, g.function true c.next = .ok r c₁ ∧ .function (c₁.spanFrom c.span) r = s ∧
      c₁ = c' := by
  simp only [asyncStatement, bind_ok, here_bind, discard_advance_bind, spanFrom_bind, pure_run,
    ok_iff]

theorem method_ok {r : Routine} : g.method c = .ok r c' ↔
    ∃ async c₁, accept .asyncWord c = .ok async c₁ ∧
      g.routine async (if c₁.peek.kind = .functionWord then c₁.next else c₁) = .ok r c' := by
  simp only [method, bind_ok, discard_accept_bind]

theorem classStatement_ok {s : Statement} : g.classStatement c = .ok s c' ↔
    c.next.peek.kind = .identifier ∧ c.next.next.peek.kind = .leftBrace ∧
      ∃ methods c₁, items g.method c.next.next.next = .ok methods c₁ ∧
        c₁.peek.kind = .rightBrace ∧
        .classDecl (c₁.next.spanFrom c.span) c.next.peek.text methods = s ∧ c₁.next = c' := by
  simp only [classStatement, bind_ok, here_bind, discard_advance_bind, name_bind,
    discard_expect_bind, spanFrom_bind, pure_run, guarded_ok, ok_iff]

/-! ## Control flow -/

theorem alternative_ok {s : Statement} : g.alternative c = .ok s c' ↔
    (c.peek.kind = .ifWord ∧ g.statement c = .ok s c') ∨
      (c.peek.kind ≠ .ifWord ∧ g.blockStatement c = .ok s c') := by
  by_cases h : c.peek.kind = .ifWord <;> simp [alternative, sees_bind, h]

theorem conditional_ok {s : Statement} : g.conditional c = .ok s c' ↔
    ∃ condition c₁, g.expression .lowest c.next = .ok condition c₁ ∧
      ∃ body c₂, g.block c₁ = .ok body c₂ ∧
        ∃ otherwise c₃, optionally .elseWord g.alternative c₂ = .ok otherwise c₃ ∧
          .conditional (c₃.spanFrom c.span) condition.ungrouped body otherwise = s ∧ c₃ = c' := by
  simp only [conditional, bind_ok, here_bind, discard_advance_bind, spanFrom_bind, pure_run,
    ok_iff]

theorem caughtName_ok {name : String} : caughtName c = .ok name c' ↔
    c.peek.kind = .identifier ∧ c.next.peek.kind = .rightParen ∧ c.peek.text = name ∧
      c.next.next = c' := by
  simp only [caughtName, name_bind, discard_expect_bind, pure_run, guarded_ok, ok_iff]

theorem handler_ok {h : Handler} : g.handler c = .ok h c' ↔
    ∃ binding c₁, optionally .leftParen caughtName c = .ok binding c₁ ∧
      ∃ body c₂, g.block c₁ = .ok body c₂ ∧ ⟨binding, body⟩ = h ∧ c₂ = c' := by
  simp only [handler, bind_ok, pure_run, ok_iff]

theorem attempt_ok {s : Statement} : g.attempt c = .ok s c' ↔
    ∃ body c₁, g.block c.next = .ok body c₁ ∧
      ∃ handler c₂, optionally .catchWord g.handler c₁ = .ok handler c₂ ∧
        ∃ cleanup c₃, optionally .finallyWord g.block c₂ = .ok cleanup c₃ ∧
          ¬(handler.isNone = true ∧ cleanup.isNone = true) ∧
          .attempt (c₃.spanFrom c.span) body handler cleanup = s ∧ c₃ = c' := by
  simp only [attempt, bind_ok, here_bind, discard_advance_bind, spanFrom_bind, ite_run,
    unexpected_run, unless_ok, pure_run, ok_iff]

theorem returnValue_ok {r : Option Expr} : g.returnValue c = .ok r c' ↔
    (c.peek.kind = .semicolon ∧ none = r ∧ c = c') ∨
      (c.peek.kind ≠ .semicolon ∧ ∃ e, g.expression .lowest c = .ok e c' ∧ some e = r) := by
  by_cases h : c.peek.kind = .semicolon
  · simp [returnValue, sees_bind, h, pure_run]
  · simp [returnValue, sees_bind, h, map_ok]

theorem returning_ok {s : Statement} : g.returning c = .ok s c' ↔
    ∃ value c₁, g.returnValue c.next = .ok value c₁ ∧ c₁.peek.kind = .semicolon ∧
      .returning (c₁.next.spanFrom c.span) value = s ∧ c₁.next = c' := by
  simp only [returning, bind_ok, here_bind, discard_advance_bind, discard_expect_bind,
    spanFrom_bind, pure_run, guarded_ok, ok_iff]

theorem expressionStatement_ok {s : Statement} : g.expressionStatement c = .ok s c' ↔
    ∃ value c₁, g.expression .lowest c = .ok value c₁ ∧
      ((c₁.peek.kind = .semicolon ∧ .expression (c₁.next.spanFrom c.span) value = s ∧
          c₁.next = c') ∨
        (c₁.peek.kind ≠ .semicolon ∧ endsItself value = true ∧
          .expression (c₁.spanFrom c.span) value = s ∧ c₁ = c')) := by
  simp only [expressionStatement, bind_ok, here_bind, accept_bind, spanFrom_bind, ite_run,
    unexpected_run, pure_run]
  apply exists_congr
  intro value
  apply exists_congr
  intro c₁
  apply and_congr_right
  intro _
  by_cases semicolon : c₁.peek.kind = .semicolon
  · simp [semicolon]
  · by_cases ended : endsItself value = true <;> simp [semicolon, ended]

/-- A token that begins one of the statements with a form of their own. -/
def opensStatement (kind : Kind) : Bool :=
  kind = .functionWord || kind = .asyncWord || kind = .classWord || kind = .constWord
    || kind = .letWord || kind = .ifWord || kind = .tryWord || kind = .returnWord
    || kind = .leftBrace

/-- The token that begins a statement says which reader reads it. -/
theorem anyStatement_ok {s : Statement} : g.anyStatement c = .ok s c' ↔
    (c.peek.kind = .functionWord ∧ g.functionStatement c = .ok s c') ∨
      (c.peek.kind = .asyncWord ∧ g.asyncStatement c = .ok s c') ∨
      (c.peek.kind = .classWord ∧ g.classStatement c = .ok s c') ∨
      ((c.peek.kind = .constWord ∨ c.peek.kind = .letWord) ∧ g.declaration c = .ok s c') ∨
      (c.peek.kind = .ifWord ∧ g.conditional c = .ok s c') ∨
      (c.peek.kind = .tryWord ∧ g.attempt c = .ok s c') ∨
      (c.peek.kind = .returnWord ∧ g.returning c = .ok s c') ∨
      (c.peek.kind = .leftBrace ∧ g.blockStatement c = .ok s c') ∨
      (opensStatement c.peek.kind = false ∧ g.expressionStatement c = .ok s c') := by
  simp only [anyStatement, peek_bind, opensStatement, Bool.or_eq_false_iff, decide_eq_false_iff_not]
  cases c.peek.kind <;> simp

end Grammar

end TwoScript
