import TwoScript.Parse.Program
import TwoScript.Proofs.Parse.Success

/-!
# How high a tree can grow

A grammar with `room` levels reads no tree of twice that height or more, whatever the
tokens are. One level adds at most two nodes to a branch: its own, and the statement or
block that an arm or an alternative puts between. Operators in a chain add nodes
without a level, but a chain is cut off at the room below it.
-/

namespace TwoScript

/-! ## Loops

What holds of every item holds of all items of a loop, whether the loop ends by itself or
because it no longer uses up tokens. -/

namespace Parser

variable {α : Type} {P : α → Prop} {c c' : Cursor}

theorem forall_of_many {step : Parser (Option α)} {as : List α}
    (each : ∀ c a c', step c = .ok (some a) c' → P a) (h : many step c = .ok as c') :
    ∀ a ∈ as, P a := by
  induction many_ok.mp h with
  | stop _ => exact fun a ha => nomatch ha
  | stuck first _ => exact List.forall_mem_singleton.mpr (each _ _ _ first)
  | more first _ rest ih =>
      exact List.forall_mem_cons.mpr ⟨each _ _ _ first, ih (many_ok.mpr rest)⟩

theorem forall_of_items {item : Parser α} {as : List α}
    (each : ∀ c a c', item c = .ok a c' → P a) (h : items item c = .ok as c') :
    ∀ a ∈ as, P a := by
  refine forall_of_many (fun d a d' run => ?_) h
  rcases itemBeforeBrace_ok.mp run with ⟨_, none, _⟩ | ⟨_, _, b, read, same⟩
  · cases none
  · cases same
    exact each d a d' read

theorem forall_of_separated {close : Kind} {item : Parser α} {as : List α}
    (each : ∀ c a c', item c = .ok a c' → P a) (h : separated close item c = .ok as c') :
    ∀ a ∈ as, P a := by
  rcases separated_ok.mp h with ⟨_, rfl, _⟩ | ⟨_, first, c₁, read, rest, more, rfl⟩
  · exact fun a ha => nomatch ha
  · refine List.forall_mem_cons.mpr
      ⟨each c first c₁ read, forall_of_many (fun d a d' run => ?_) more⟩
    rcases optionally_ok.mp run with ⟨_, b, read, same⟩ | ⟨_, none, _⟩
    · cases same
      exact each d.next a d' read
    · cases none

theorem invariant_of_iterate {step : α → Parser (Option α)} {a a' : α}
    (keeps : ∀ a c b c', P a → step a c = .ok (some b) c' → P b) (start : P a)
    (h : iterate step a c = .ok a' c') : P a' := by
  induction iterate_ok.mp h with
  | stop _ => exact start
  | stuck run _ => exact keeps _ _ _ _ start run
  | more run _ rest ih => exact ih (keeps _ _ _ _ start run) (iterate_ok.mpr rest)

end Parser

open TwoScript.Parser

/-- Everything that the grammar reads is lower than `bound`. -/
structure Grammar.Below (g : Grammar) (bound : Nat) : Prop where
  statement {c c' : Cursor} {s : Statement} : g.statement c = .ok s c' → s.height < bound
  expression {min : Precedence} {c c' : Cursor} {e : Expr} :
    g.expression min c = .ok e c' → e.height < bound

namespace Grammar.Below

variable {g : Grammar} {bound : Nat} {c c' : Cursor}

/-! ## Expressions -/

theorem block (below : g.Below bound) {body : List Statement} (h : g.block c = .ok body c') :
    bodyHeight body ≤ bound - 1 := by
  obtain ⟨_, ss, c₁, read, _, rfl, _⟩ := block_ok.mp h
  refine bodyHeight_le_iff.mpr (forall_of_items (fun d s d' run => ?_) read)
  have := below.statement run
  omega

theorem blockStatement (below : g.Below bound) {s : Statement}
    (h : g.blockStatement c = .ok s c') : s.height ≤ 1 + (bound - 1) := by
  obtain ⟨body, c₁, read, rfl, _⟩ := blockStatement_ok.mp h
  have := below.block read
  rw [Statement.height]
  omega

theorem pattern_height {e : Expr} (h : pattern c = .ok e c') : e.height = 1 := by
  rcases pattern_ok.mp h with ⟨_, negated⟩ | ⟨_, read⟩
  · obtain ⟨_, literal⟩ := negatedNumber_ok.mp negated
    obtain ⟨x, _, rfl, _⟩ := negatedLiteral_ok.mp literal
    rfl
  · obtain ⟨value, _, rfl, _⟩ := literal_ok.mp read
    rfl

/-- The body of an arm is a block or an expression, one node higher than what it holds. -/
theorem arm (below : g.Below bound) {a : Arm} (h : g.arm c = .ok a c') :
    (∀ p, a.pattern = some p → p.height ≤ 1 + (bound - 1)) ∧
      a.body.height ≤ 1 + (bound - 1) := by
  obtain ⟨pattern, c₁, first, _, body, c₂, read, _, _, _, rfl, _⟩ := arm_ok.mp h
  constructor
  · rintro p rfl
    rcases armPattern_ok.mp first with ⟨_, none, _⟩ | ⟨_, e, run, same⟩
    · cases none
    · cases same
      rw [pattern_height run]
      omega
  · rcases armBody_ok.mp read with ⟨_, run⟩ | ⟨_, run⟩
    · exact below.blockStatement run
    · obtain ⟨value, inner, rfl⟩ := armValue_ok.mp run
      have := below.expression inner
      show 1 + value.height ≤ _
      omega

theorem selection (below : g.Below bound) {e : Expr} (h : g.selection c = .ok e c') :
    e.height < bound + 2 := by
  obtain ⟨subject, c₁, first, _, arms, c₂, read, _, rfl, _⟩ := selection_ok.mp h
  have matched := below.expression first
  have dropped := subject.height_ungrouped_le
  have higher : armsHeight arms ≤ 1 + (bound - 1) :=
    armsHeight_le_iff.mpr (forall_of_items (fun _ _ _ run => below.arm run) read)
  rw [Expr.height]
  omega

theorem parts (below : g.Below bound) {segments : List Segment} {parts : List Part}
    (h : segments.mapM g.part = .ok parts) :
    ∀ part ∈ parts, ∀ e, part = .expr e → e.height ≤ bound - 1 := by
  induction segments generalizing parts with
  | nil =>
      cases h
      exact fun _ member => nomatch member
  | cons segment segments ih =>
      obtain ⟨part, rest, first, others, rfl⟩ := parts_ok_cons.mp h
      refine List.forall_mem_cons.mpr ⟨?_, ih others⟩
      rintro e rfl
      cases segment with
      | text chars => cases first
      | source place chars =>
          obtain ⟨e', read, same⟩ := part_source_ok.mp first
          cases same
          obtain ⟨c', run, _⟩ := interpolation_ok.mp read
          have := below.expression run
          omega

theorem operand (below : g.Below bound) {e : Expr} (h : g.operand c = .ok e c') :
    e.height < bound + 2 := by
  rcases operand_ok.mp h with ⟨_, h⟩ | ⟨_, h⟩ | ⟨_, h⟩ | ⟨_, h⟩ | ⟨_, h⟩ | ⟨op, _, h⟩ | ⟨_, h⟩
  · obtain ⟨value, _, rfl, _⟩ := literal_ok.mp h
    rw [Expr.height]
    omega
  · obtain ⟨parts, read, rfl, _⟩ := template_ok.mp h
    have := partsHeight_le_iff.mpr (below.parts read)
    rw [Expr.height]
    omega
  · obtain ⟨rfl, _⟩ := ident_ok.mp h
    rw [Expr.height]
    omega
  · obtain ⟨inner, c₁, read, _, rfl, _⟩ := group_ok.mp h
    have := below.expression read
    rw [Expr.height]
    omega
  · exact below.selection h
  · obtain ⟨operand, c₁, read, rfl, _⟩ := unary_ok.mp h
    have := below.expression read
    rw [Expr.height]
    omega
  · obtain ⟨operand, c₁, read, rfl, _⟩ := await_ok.mp h
    have := below.expression read
    rw [Expr.height]
    omega

/-- An operator puts one node on top of its operands. -/
theorem height_of_continuation {left e : Expr} (h : g.continuation left c = .ok e c') :
    e.height = 1 + max left.height e.trailingHeight := by
  rcases continuation_ok.mp h with ⟨_, h⟩ | ⟨_, h⟩ | ⟨op, _, h⟩ | ⟨op, _, h⟩
  · obtain ⟨args, c₁, _, _, rfl, _⟩ := callOf_ok.mp h
    rfl
  · obtain ⟨name, c₁, _, rfl, _⟩ := memberOf_ok.mp h
    simp [Expr.height, Expr.trailingHeight]
  · obtain ⟨_, value, c₁, _, rfl, _⟩ := assignmentTo_ok.mp h
    rfl
  · obtain ⟨right, c₁, _, rfl, _⟩ := operationOn_ok.mp h
    rfl

/-- A chain knows its height, and the operators in it do not lift it over the room. -/
theorem chain (below : g.Below bound) {room : Nat} (fits : room < bound + 2)
    {min : Precedence} {e : Expr} (h : g.chain room min c = .ok e c') : e.height < bound + 2 := by
  obtain ⟨first, c₁, read, whole, c₂, run, rfl, _⟩ := chain_ok.mp h
  have kept : whole.expr.height = whole.height ∧ whole.height < bound + 2 := by
    refine invariant_of_iterate (P := fun k => k.expr.height = k.height ∧ k.height < bound + 2)
      (fun k d l d' known run => ?_) ⟨rfl, below.operand read⟩ run
    rcases extend_ok.mp run with ⟨_, none, _⟩ | ⟨_, e, continued, low, same⟩
    · cases none
    · cases same
      refine ⟨?_, Nat.lt_of_le_of_lt low fits⟩
      rw [height_of_continuation continued, known.1]
  rw [kept.1]
  exact kept.2

/-! ## Statements -/

theorem parameter (below : g.Below bound) {p : Parameter} (h : g.parameter c = .ok p c') :
    ∀ e, p.default = some e → e.height ≤ bound - 1 := by
  obtain ⟨_, type, c₁, _, default, c₂, read, rfl, _⟩ := parameter_ok.mp h
  rintro e rfl
  rcases optionally_ok.mp read with ⟨_, value, run, same⟩ | ⟨_, none, _⟩
  · cases same
    have := below.expression run
    omega
  · cases none

theorem routine (below : g.Below bound) {async : Bool} {r : Routine}
    (h : g.routine async c = .ok r c') : r.height ≤ bound - 1 := by
  obtain ⟨_, _, params, c₁, read, _, returns, c₂, _, body, c₃, inner, rfl, _⟩ := routine_ok.mp h
  have defaults := paramsHeight_le_iff.mpr
    (forall_of_separated (fun _ _ _ run => below.parameter run) read)
  have statements := below.block inner
  rw [Routine.height]
  omega

theorem function (below : g.Below bound) {async : Bool} {r : Routine} {s : Span}
    (h : g.function async c = .ok r c') : (Statement.function s r).height < bound + 2 := by
  obtain ⟨_, read⟩ := function_ok.mp h
  have := below.routine read
  rw [Statement.height]
  omega

theorem classStatement (below : g.Below bound) {s : Statement}
    (h : g.classStatement c = .ok s c') : s.height < bound + 2 := by
  obtain ⟨_, _, methods, c₁, read, _, rfl, _⟩ := classStatement_ok.mp h
  have each : ∀ r ∈ methods, r.height ≤ bound - 1 := by
    refine forall_of_items (fun d r d' run => ?_) read
    obtain ⟨async, d₁, _, inner⟩ := method_ok.mp run
    exact below.routine inner
  have := routinesHeight_le_iff.mpr each
  rw [Statement.height]
  omega

theorem declaration (below : g.Below bound) {s : Statement} (h : g.declaration c = .ok s c') :
    s.height < bound + 2 := by
  obtain ⟨_, type, c₁, _, initial, c₂, read, _, rfl, _⟩ := declaration_ok.mp h
  rcases initialValue_ok.mp read with ⟨_, value, run, rfl⟩ | ⟨_, _, rfl, _⟩
  · have := below.expression run
    rw [Statement.height]
    omega
  · rw [Statement.height]
    omega

theorem alternative (below : g.Below bound) {s : Statement} (h : g.alternative c = .ok s c') :
    s.height ≤ 1 + (bound - 1) := by
  rcases alternative_ok.mp h with ⟨_, run⟩ | ⟨_, run⟩
  · have := below.statement run
    omega
  · exact below.blockStatement run

/-- An alternative is two nodes above the level below. That a condition was read there says
that there is such a level. -/
theorem conditional (below : g.Below bound) {s : Statement} (h : g.conditional c = .ok s c') :
    s.height < bound + 2 := by
  obtain ⟨condition, c₁, first, body, c₂, inner, otherwise, c₃, last, rfl, _⟩ := conditional_ok.mp h
  have tested := below.expression first
  have dropped := condition.height_ungrouped_le
  have statements := below.block inner
  rcases optionally_ok.mp last with ⟨_, s, run, rfl⟩ | ⟨_, rfl, _⟩
  · have := below.alternative run
    rw [Statement.height]
    omega
  · rw [Statement.height]
    omega

theorem handler (below : g.Below bound) {handler : Option Handler}
    (h : optionally .catchWord g.handler c = .ok handler c') :
    handlerHeight handler ≤ bound - 1 := by
  rcases optionally_ok.mp h with ⟨_, h, run, rfl⟩ | ⟨_, rfl, _⟩
  · obtain ⟨binding, c₁, _, body, c₂, inner, rfl, _⟩ := handler_ok.mp run
    exact below.block inner
  · exact Nat.zero_le _

theorem cleanup (below : g.Below bound) {cleanup : Option (List Statement)}
    (h : optionally .finallyWord g.block c = .ok cleanup c') :
    cleanupHeight cleanup ≤ bound - 1 := by
  rcases optionally_ok.mp h with ⟨_, body, run, rfl⟩ | ⟨_, rfl, _⟩
  · exact below.block run
  · exact Nat.zero_le _

theorem attempt (below : g.Below bound) {s : Statement} (h : g.attempt c = .ok s c') :
    s.height < bound + 2 := by
  obtain ⟨body, c₁, inner, handler, c₂, caught, cleanup, c₃, last, _, rfl, _⟩ := attempt_ok.mp h
  have statements := below.block inner
  have handled := below.handler caught
  have cleaned := below.cleanup last
  rw [Statement.height]
  omega

theorem returning (below : g.Below bound) {s : Statement} (h : g.returning c = .ok s c') :
    s.height < bound + 2 := by
  obtain ⟨value, c₁, read, _, rfl, _⟩ := returning_ok.mp h
  rcases returnValue_ok.mp read with ⟨_, rfl, _⟩ | ⟨_, e, run, rfl⟩
  · rw [Statement.height]
    omega
  · have := below.expression run
    rw [Statement.height]
    omega

theorem expressionStatement (below : g.Below bound) {s : Statement}
    (h : g.expressionStatement c = .ok s c') : s.height < bound + 2 := by
  obtain ⟨value, c₁, read, ends⟩ := expressionStatement_ok.mp h
  have := below.expression read
  rcases ends with ⟨_, rfl, _⟩ | ⟨_, _, rfl, _⟩
  all_goals
    rw [Statement.height]
    omega

theorem anyStatement (below : g.Below bound) {s : Statement} (h : g.anyStatement c = .ok s c') :
    s.height < bound + 2 := by
  rcases anyStatement_ok.mp h with ⟨_, h⟩ | ⟨_, h⟩ | ⟨_, h⟩ | ⟨_, h⟩ | ⟨_, h⟩ | ⟨_, h⟩ | ⟨_, h⟩ |
    ⟨_, h⟩ | ⟨_, h⟩
  · obtain ⟨r, c₁, read, rfl, _⟩ := functionStatement_ok.mp h
    exact below.function read
  · obtain ⟨r, c₁, read, rfl, _⟩ := asyncStatement_ok.mp h
    exact below.function read
  · exact below.classStatement h
  · exact below.declaration h
  · exact below.conditional h
  · exact below.attempt h
  · exact below.returning h
  · have := below.blockStatement h
    omega
  · exact below.expressionStatement h

/-! ## Levels -/

theorem nest (below : g.Below bound) {room : Nat} (fits : room < bound + 2) :
    (g.nest room).Below (bound + 2) where
  statement := below.anyStatement
  expression := below.chain fits

end Grammar.Below

theorem Grammar.below_ofRoom (room : Nat) : (ofRoom room).Below (2 * room) := by
  induction room with
  | zero =>
      constructor
      · intro c c' s h
        cases h
      · intro min c c' e h
        cases h
  | succ room ih => exact ih.nest (by omega)

/-- A placeholder is a single node, so recovery keeps to the bound as well. -/
theorem Grammar.Below.program {g : Grammar} {bound : Nat} (below : g.Below bound)
    (some : 1 < bound) (c : Cursor) :
    ∀ s ∈ (programFrom g c).1.statements, s.height < bound := by
  induction length : c.ahead.length using Nat.strongRecOn generalizing c with
  | ind n ih =>
      rw [programFrom]
      by_cases ends : c.atEnd = true
      · simp [ends, Program.empty]
      · rw [if_neg ends]
        have first : (statementOrFailure g c).1.height < bound := by
          unfold statementOrFailure
          split
          · rename_i run
            exact below.statement run
          · exact some
        rcases run : statementOrFailure g c with ⟨s, e, c'⟩
        rw [run] at first
        by_cases shorter : c'.ahead.length < c.ahead.length
        · have rest := ih _ (length ▸ shorter) c' rfl
          simpa [shorter, Program.push] using ⟨first, rest⟩
        · simpa [shorter, Program.push, Program.empty] using first

/-- No list of tokens makes a tree that is twice as high as the nesting may be deep. This
holds of every statement of a program, of every expression, and below any number of levels
that are taken up already. -/
theorem height_le_of_parsed :
    (∀ tokens, ∀ s ∈ (Program.ofTokens tokens).statements, s.height ≤ 2 * maxNesting - 1) ∧
      (∀ tokens e c', (Cursor.ofTokens tokens).expression = .ok e c' →
        e.height ≤ 2 * maxNesting - 1) ∧
      ∀ depth c c', (∀ s, (Grammar.ofRoom (maxNesting - depth)).statement c = .ok s c' →
          s.height ≤ 2 * (maxNesting - depth) - 1) ∧
        ∀ min e, (Grammar.ofRoom (maxNesting - depth)).expression min c = .ok e c' →
          e.height ≤ 2 * (maxNesting - depth) - 1 := by
  refine ⟨fun tokens s hs => ?_, fun tokens e c' run => ?_, fun depth c c' => ⟨fun s run => ?_,
    fun min e run => ?_⟩⟩
  · have := (Grammar.below_ofRoom maxNesting).program (by decide) _ s hs
    omega
  · have := (Grammar.below_ofRoom maxNesting).expression run
    omega
  · have := (Grammar.below_ofRoom (maxNesting - depth)).statement run
    omega
  · have := (Grammar.below_ofRoom (maxNesting - depth)).expression run
    omega

/-- Two levels hold a conditional with a statement in its alternative, which is as high as
two levels allow. -/
theorem height_le_of_parsed_alternative :
    (∃ s ∈ (Program.ofTokens (tokenize "if a \x7b\x7d else \x7b return; \x7d")).statements,
      s.height ≤ 2 * maxNesting - 1) ∧
    (∃ e c', (Cursor.ofTokens (tokenize "!a")).expression = .ok e c' ∧
      e.height ≤ 2 * maxNesting - 1) ∧
    (∃ s c', (Grammar.ofRoom (maxNesting - 254)).statement
        (Cursor.ofTokens (tokenize "if a \x7b\x7d else \x7b return; \x7d")) = .ok s c' ∧
      s.height = 2 * (maxNesting - 254) - 1 ∧ s.height ≤ 2 * (maxNesting - 254) - 1) ∧
    ∃ e c', (Grammar.ofRoom (maxNesting - 254)).expression .lowest
        (Cursor.ofTokens (tokenize "!a")) = .ok e c' ∧ e.height ≤ 2 * (maxNesting - 254) - 1 := by
  have program : (Program.ofTokens (tokenize "if a \x7b\x7d else \x7b return; \x7d")).statements =
      [.conditional ⟨0, 24, 1⟩ (.ident ⟨3, 4, 1⟩ "a") []
        (some (.block ⟨13, 24, 1⟩ [.returning ⟨15, 22, 1⟩ none]))] := by
    with_unfolding_all rfl
  have negation : (Cursor.ofTokens (tokenize "!a")).expression =
      .ok (.unary ⟨0, 2, 1⟩ .not (.ident ⟨1, 2, 1⟩ "a"))
        ⟨some ⟨.identifier, "a", ⟨1, 2, 1⟩, none⟩, [], ⟨.endOfFile, "", ⟨2, 2, 1⟩, none⟩,
          by simp, rfl⟩ := by
    with_unfolding_all rfl
  have statement : (Grammar.ofRoom (maxNesting - 254)).statement
      (Cursor.ofTokens (tokenize "if a \x7b\x7d else \x7b return; \x7d")) =
      .ok (.conditional ⟨0, 24, 1⟩ (.ident ⟨3, 4, 1⟩ "a") []
        (some (.block ⟨13, 24, 1⟩ [.returning ⟨15, 22, 1⟩ none])))
        ⟨some ⟨.rightBrace, "\x7d", ⟨23, 24, 1⟩, none⟩, [], ⟨.endOfFile, "", ⟨24, 24, 1⟩, none⟩,
          by simp, rfl⟩ := by
    with_unfolding_all rfl
  have nested : (Grammar.ofRoom (maxNesting - 254)).expression .lowest
      (Cursor.ofTokens (tokenize "!a")) =
      .ok (.unary ⟨0, 2, 1⟩ .not (.ident ⟨1, 2, 1⟩ "a"))
        ⟨some ⟨.identifier, "a", ⟨1, 2, 1⟩, none⟩, [], ⟨.endOfFile, "", ⟨2, 2, 1⟩, none⟩,
          by simp, rfl⟩ := by
    with_unfolding_all rfl
  have member := program ▸ List.mem_singleton_self _
  exact ⟨⟨_, member, height_le_of_parsed.1 _ _ member⟩,
    ⟨_, _, negation, height_le_of_parsed.2.1 _ _ _ negation⟩,
    ⟨_, _, statement, by decide, (height_le_of_parsed.2.2 254 _ _).1 _ statement⟩,
    ⟨_, _, nested, (height_le_of_parsed.2.2 254 _ _).2 _ _ nested⟩⟩

end TwoScript
