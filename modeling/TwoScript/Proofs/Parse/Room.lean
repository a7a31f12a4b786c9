import TwoScript.Proofs.Parse.CompleteStatement
import TwoScript.Proofs.Parse.Depth

/-!
# How much room a tree needs

A grammar with more levels reads no tree differently. What any grammar reads, a grammar
with more than twice as many levels as the tree is high reads as well, from the same cursor
to the same cursor. Twice, because a selection or a condition drops the parentheses around
its expression: they take up a level that the tree does not show.
-/

namespace TwoScript

/-! ## Levels -/

/-- A number of levels that is enough for an expression. The parentheses of a group may be
dropped, and then count for one level over the height of what they hold. -/
def Expr.levels : Expr → Nat
  | .group _ inner => 2 * inner.height + 1
  | e => 2 * e.height

theorem Expr.levels_le (e : Expr) : e.levels ≤ 2 * e.height := by
  cases e with
  | group _ inner =>
      rw [levels, height]
      omega
  | _ => exact Nat.le_refl _

theorem Expr.levels_le_ungrouped (e : Expr) : e.levels ≤ 2 * e.ungrouped.height + 1 := by
  cases e with
  | group _ inner => exact Nat.le_refl _
  | _ => exact Nat.le_succ _

/-! ## Loops

Two loops do the same if their steps do, on the items that the first one has read. -/

namespace Parser

variable {α : Type} {c c' : Cursor} {as : List α}

theorem many_same {step step' : Parser (Option α)} (h : many step c = .ok as c')
    (stops : ∀ {c c'}, step c = .ok none c' → step' c = .ok none c')
    (goes : ∀ a ∈ as, ∀ {c c'}, step c = .ok (some a) c' → step' c = .ok (some a) c') :
    many step' c = .ok as c' := by
  rw [many_ok] at h ⊢
  induction h with
  | stop stop => exact .stop (stops stop)
  | stuck first stuck => exact .stuck (goes _ List.mem_cons_self first) stuck
  | more first shorter _ ih =>
      exact .more (goes _ List.mem_cons_self first) shorter
        (ih fun b member => goes b (List.mem_cons_of_mem _ member))

theorem items_same {item item' : Parser α} (h : items item c = .ok as c')
    (goes : ∀ a ∈ as, ∀ {c c'}, item c = .ok a c' → item' c = .ok a c') :
    items item' c = .ok as c' := by
  refine many_same h (fun {d d'} run => ?_) fun a member {d d'} run => ?_
  · rcases itemBeforeBrace_ok.mp run with ends | ⟨_, _, b, _, same⟩
    · exact itemBeforeBrace_ok.mpr (.inl ends)
    · cases same
  · rcases itemBeforeBrace_ok.mp run with ⟨_, none, _⟩ | ⟨inner, opened, b, read, same⟩
    · cases none
    · cases same
      exact itemBeforeBrace_ok.mpr (.inr ⟨inner, opened, a, goes a member read, rfl⟩)

theorem optionally_same {kind : Kind} {item item' : Parser α} {r : Option α}
    (h : optionally kind item c = .ok r c')
    (goes : ∀ a ∈ r, ∀ {c c'}, item c = .ok a c' → item' c = .ok a c') :
    optionally kind item' c = .ok r c' := by
  rcases optionally_ok.mp h with ⟨mark, a, read, rfl⟩ | none
  · exact optionally_ok.mpr (.inl ⟨mark, a, goes a rfl read, rfl⟩)
  · exact optionally_ok.mpr (.inr none)

theorem separated_same {close : Kind} {item item' : Parser α}
    (h : separated close item c = .ok as c')
    (goes : ∀ a ∈ as, ∀ {c c'}, item c = .ok a c' → item' c = .ok a c') :
    separated close item' c = .ok as c' := by
  rcases separated_ok.mp h with none | ⟨inner, first, c₁, read, rest, others, rfl⟩
  · exact separated_ok.mpr (.inl none)
  · have more : many (optionally .comma item') c₁ = .ok rest c' := by
      refine many_same others (fun {d d'} run => ?_) fun a member {d d'} run => ?_
      · exact optionally_same run fun a none => nomatch none
      · refine optionally_same run fun b same => ?_
        cases same
        exact goes a (List.mem_cons_of_mem first member)
    exact separated_ok.mpr
      (.inr ⟨inner, first, c₁, goes first List.mem_cons_self read, rest, more, rfl⟩)

/-- Of a loop over a state that only grows, the result bounds every state on the way. -/
theorem iterate_same {σ : Type} {step step' : σ → Parser (Option σ)} (inv low : σ → Prop)
    {s s' : σ} (h : iterate step s c = .ok s' c') (start : inv s)
    (keeps : ∀ {s s₁ c c₁}, inv s → step s c = .ok (some s₁) c₁ → inv s₁)
    (goes : ∀ {s s₁ c c₁}, inv s → step s c = .ok (some s₁) c₁ → low s₁ →
      low s ∧ step' s c = .ok (some s₁) c₁)
    (stops : ∀ {s c c'}, step s c = .ok none c' → step' s c = .ok none c') (final : low s') :
    low s ∧ iterate step' s c = .ok s' c' := by
  rw [iterate_ok] at h ⊢
  induction h with
  | stop stop => exact ⟨final, .stop (stops stop)⟩
  | stuck first stuck =>
      obtain ⟨low, same⟩ := goes start first final
      exact ⟨low, .stuck same stuck⟩
  | more first shorter _ ih =>
      obtain ⟨below, rest⟩ := ih (keeps start first) final
      obtain ⟨low, same⟩ := goes start first below
      exact ⟨low, .more same shorter rest⟩

end Parser

/-- What `g` reads and needs fewer than `n` levels, `h` reads as well. -/
structure Grammar.Extends (h g : Grammar) (n : Nat) : Prop where
  statement {c c' : Cursor} {s : Statement} :
    g.statement c = .ok s c' → 2 * s.height < n → h.statement c = .ok s c'
  expression {min : Precedence} {c c' : Cursor} {e : Expr} :
    g.expression min c = .ok e c' → e.levels < n → h.expression min c = .ok e c'

namespace Grammar.Extends

open TwoScript.Parser

variable {g h : Grammar} {n : Nat} {c c' : Cursor} {e : Expr} {s : Statement}

theorem lower (more : h.Extends g n) {min : Precedence} (run : g.expression min c = .ok e c')
    (low : 2 * e.height < n) : h.expression min c = .ok e c' :=
  more.expression run (Nat.lt_of_le_of_lt e.levels_le low)

/-- An expression that is kept without the parentheses around it. -/
theorem ungrouped (more : h.Extends g n) {min : Precedence} (run : g.expression min c = .ok e c')
    (low : 2 * e.ungrouped.height + 1 < n) : h.expression min c = .ok e c' :=
  more.expression run (Nat.lt_of_le_of_lt e.levels_le_ungrouped low)

/-! ## Expressions -/

theorem block (more : h.Extends g n) {body : List Statement} (run : g.block c = .ok body c')
    (low : 2 * bodyHeight body < n) : h.block c = .ok body c' := by
  obtain ⟨opens, ss, c₁, inside, closes, rfl, rfl⟩ := block_ok.mp run
  refine block_ok.mpr ⟨opens, ss, c₁, items_same inside fun s member _ _ read => ?_, closes, rfl,
    rfl⟩
  have := bodyHeight_le_iff.mp (Nat.le_refl _) s member
  exact more.statement read (by omega)

theorem blockStatement (more : h.Extends g n) (run : g.blockStatement c = .ok s c')
    (low : 2 * s.height < n + 1) : h.blockStatement c = .ok s c' := by
  obtain ⟨body, c₁, inside, rfl, rfl⟩ := blockStatement_ok.mp run
  rw [Statement.height] at low
  exact blockStatement_ok.mpr ⟨body, c₁, more.block inside (by omega), rfl, rfl⟩

theorem arm (more : h.Extends g n) {a : Arm} (run : g.arm c = .ok a c')
    (low : 2 * a.body.height < n + 1) : h.arm c = .ok a c' := by
  obtain ⟨pattern, c₁, first, mark, body, c₂, read, u, c₃, ended, rfl, rfl⟩ := arm_ok.mp run
  have inside : h.armBody c₁.next = .ok body c₂ := by
    rcases armBody_ok.mp read with ⟨brace, block⟩ | ⟨other, value⟩
    · exact armBody_ok.mpr (.inl ⟨brace, more.blockStatement block low⟩)
    · obtain ⟨e, inner, rfl⟩ := armValue_ok.mp value
      rw [Statement.height] at low
      exact armBody_ok.mpr (.inr ⟨other, armValue_ok.mpr ⟨e, more.lower inner (by omega), rfl⟩⟩)
  exact arm_ok.mpr ⟨pattern, c₁, first, mark, body, c₂, inside, u, c₃, ended, rfl, rfl⟩

theorem selection (more : h.Extends g n) (run : g.selection c = .ok e c')
    (low : e.levels < n + 1) : h.selection c = .ok e c' := by
  obtain ⟨subject, c₁, first, opens, arms, c₂, inside, closes, rfl, rfl⟩ := selection_ok.mp run
  have low : 2 * (1 + max subject.ungrouped.height (armsHeight arms)) < n + 1 := low
  have second : items h.arm c₁.next = .ok arms c₂ := by
    refine items_same inside fun a member _ _ read => ?_
    have := (armsHeight_le_iff.mp (Nat.le_refl _) a member).2
    exact more.arm read (by omega)
  exact selection_ok.mpr ⟨subject, c₁, more.ungrouped first (by omega), opens, arms, c₂, second,
    closes, rfl, rfl⟩

theorem parts (more : h.Extends g n) {segments : List Segment} {parts : List Part}
    (run : segments.mapM g.part = .ok parts) (low : 2 * partsHeight parts < n) :
    segments.mapM h.part = .ok parts := by
  induction segments generalizing parts with
  | nil => exact run
  | cons segment segments ih =>
      obtain ⟨part, rest, first, others, rfl⟩ := parts_ok_cons.mp run
      cases segment with
      | text chars =>
          cases first
          exact parts_ok_cons.mpr ⟨_, rest, rfl, ih others low, rfl⟩
      | source place chars =>
          obtain ⟨e, inside, rfl⟩ := part_source_ok.mp first
          rw [partsHeight] at low
          obtain ⟨c', read, ended⟩ := interpolation_ok.mp inside
          have same := interpolation_ok.mpr ⟨c', more.lower read (by omega), ended⟩
          exact parts_ok_cons.mpr
            ⟨.expr e, rest, part_source_ok.mpr ⟨e, same, rfl⟩, ih others (by omega), rfl⟩

theorem operand (more : h.Extends g n) (run : g.operand c = .ok e c')
    (low : e.levels < n + 1) : h.operand c = .ok e c' := by
  refine operand_ok.mpr ?_
  rcases operand_ok.mp run with literal | ⟨begins, run⟩ | ident | ⟨begins, run⟩ | ⟨begins, run⟩ |
    ⟨op, begins, run⟩ | ⟨begins, run⟩
  · exact .inl literal
  · obtain ⟨parts, inside, rfl, rfl⟩ := template_ok.mp run
    have low : 2 * (1 + partsHeight parts) < n + 1 := low
    exact .inr (.inl ⟨begins, template_ok.mpr ⟨parts, more.parts inside (by omega), rfl, rfl⟩⟩)
  · exact .inr (.inr (.inl ident))
  · obtain ⟨inner, c₁, read, closes, rfl, rfl⟩ := group_ok.mp run
    have low : 2 * inner.height + 1 < n + 1 := low
    have inside := more.lower read (by omega)
    exact .inr (.inr (.inr (.inl
      ⟨begins, group_ok.mpr ⟨inner, c₁, inside, closes, rfl, rfl⟩⟩)))
  · exact .inr (.inr (.inr (.inr (.inl ⟨begins, more.selection run low⟩))))
  · obtain ⟨inner, c₁, read, rfl, rfl⟩ := unary_ok.mp run
    have low : 2 * (1 + inner.height) < n + 1 := low
    have inside := more.lower read (by omega)
    exact .inr (.inr (.inr (.inr (.inr (.inl
      ⟨op, begins, unary_ok.mpr ⟨inner, c₁, inside, rfl, rfl⟩⟩)))))
  · obtain ⟨inner, c₁, read, rfl, rfl⟩ := await_ok.mp run
    have low : 2 * (1 + inner.height) < n + 1 := low
    have inside := more.lower read (by omega)
    exact .inr (.inr (.inr (.inr (.inr (.inr
      ⟨begins, await_ok.mpr ⟨inner, c₁, inside, rfl, rfl⟩⟩)))))

/-- A continuation needs room for the operands behind its operator. -/
theorem continuation (more : h.Extends g n) {left : Expr}
    (run : g.continuation left c = .ok e c') (low : 2 * e.trailingHeight < n) :
    h.continuation left c = .ok e c' := by
  refine continuation_ok.mpr ?_
  rcases continuation_ok.mp run with ⟨mark, run⟩ | member | ⟨op, mark, run⟩ | ⟨op, mark, run⟩
  · obtain ⟨args, c₁, inside, closes, rfl, rfl⟩ := callOf_ok.mp run
    have low : 2 * argsHeight args < n := low
    have same : separated .rightParen (h.expression .lowest) c.next = .ok args c₁ := by
      refine separated_same inside fun a member _ _ read => ?_
      have := argsHeight_le_iff.mp (Nat.le_refl _) a member
      exact more.lower read (by omega)
    exact .inl ⟨mark, callOf_ok.mpr ⟨args, c₁, same, closes, rfl, rfl⟩⟩
  · exact .inr (.inl member)
  · obtain ⟨fits, value, c₁, read, rfl, rfl⟩ := assignmentTo_ok.mp run
    have same := more.lower read low
    exact .inr (.inr (.inl
      ⟨op, mark, assignmentTo_ok.mpr ⟨fits, value, c₁, same, rfl, rfl⟩⟩))
  · obtain ⟨right, c₁, read, rfl, rfl⟩ := operationOn_ok.mp run
    have same := more.lower read low
    exact .inr (.inr (.inr ⟨op, mark, operationOn_ok.mpr ⟨right, c₁, same, rfl, rfl⟩⟩))

/-- No operator makes a group. -/
theorem levels_of_continuation {left : Expr} (run : g.continuation left c = .ok e c') :
    e.levels = 2 * (1 + max left.height e.trailingHeight) := by
  rw [← Below.height_of_continuation run]
  rcases continuation_ok.mp run with ⟨_, run⟩ | ⟨_, run⟩ | ⟨op, _, run⟩ | ⟨op, _, run⟩
  · obtain ⟨args, c₁, _, _, rfl, _⟩ := callOf_ok.mp run
    rfl
  · obtain ⟨name, c₁, _, rfl, _⟩ := memberOf_ok.mp run
    rfl
  · obtain ⟨_, value, c₁, _, rfl, _⟩ := assignmentTo_ok.mp run
    rfl
  · obtain ⟨right, c₁, _, rfl, _⟩ := operationOn_ok.mp run
    rfl

theorem chain (more : h.Extends g n) {room : Nat} {min : Precedence}
    (run : g.chain room min c = .ok e c') (low : e.levels < n + 1) :
    h.chain n min c = .ok e c' := by
  obtain ⟨first, c₁, read, whole, c₂, loop, rfl, rfl⟩ := chain_ok.mp run
  -- A chain knows its height, and every step makes it higher.
  have same : first.levels < n + 1 ∧
      iterate (h.extend n min) ⟨first, first.height⟩ c₁ = .ok whole c₂ := by
    refine iterate_same (fun k => k.height = k.expr.height) (fun k => k.expr.levels < n + 1) loop
      rfl (fun known run => ?_) (fun {k l d d'} known run low => ?_) (fun run => ?_) low
    · rcases extend_ok.mp run with ⟨_, none, _⟩ | ⟨_, e, continued, _, same⟩
      · cases none
      · cases same
        rw [Below.height_of_continuation continued, known]
    · rcases extend_ok.mp run with ⟨_, none, _⟩ | ⟨tighter, e, continued, _, same⟩
      · cases none
      · cases same
        have height := levels_of_continuation continued
        have left := k.expr.levels_le
        have low : e.levels < n + 1 := low
        refine ⟨by omega, extend_ok.mpr (.inr ⟨tighter, e, ?_, ?_, rfl⟩)⟩
        · exact more.continuation continued (by omega)
        · omega
    · rcases extend_ok.mp run with ends | ⟨_, e, _, _, same⟩
      · exact extend_ok.mpr (.inl ends)
      · cases same
  exact chain_ok.mpr ⟨first, c₁, more.operand read same.1, whole, c₂, same.2, rfl, rfl⟩

/-! ## Statements -/

theorem parameter (more : h.Extends g n) {p : Parameter} (run : g.parameter c = .ok p c')
    (low : ∀ e, p.default = some e → 2 * e.height < n) : h.parameter c = .ok p c' := by
  obtain ⟨name, type, c₁, typed, default, c₂, read, rfl, rfl⟩ := parameter_ok.mp run
  have same := optionally_same read fun e member _ _ value => more.lower value (low e member)
  exact parameter_ok.mpr ⟨name, type, c₁, typed, default, c₂, same, rfl, rfl⟩

theorem routine (more : h.Extends g n) {async : Bool} {r : Routine}
    (run : g.routine async c = .ok r c') (low : 2 * r.height < n) :
    h.routine async c = .ok r c' := by
  obtain ⟨name, opens, params, c₁, read, closes, returns, c₂, typed, body, c₃, inside, rfl, rfl⟩ :=
    routine_ok.mp run
  rw [Routine.height] at low
  have first : separated .rightParen h.parameter c.next.next = .ok params c₁ := by
    refine separated_same read fun p member _ _ run => more.parameter run fun e default => ?_
    have := paramsHeight_le_iff.mp (Nat.le_refl _) p member e default
    omega
  exact routine_ok.mpr ⟨name, opens, params, c₁, first, closes, returns, c₂, typed, body, c₃,
    more.block inside (by omega), rfl, rfl⟩

theorem function (more : h.Extends g n) {async : Bool} {r : Routine}
    (run : g.function async c = .ok r c') (low : 2 * r.height < n) :
    h.function async c = .ok r c' := by
  obtain ⟨word, read⟩ := function_ok.mp run
  exact function_ok.mpr ⟨word, more.routine read low⟩

theorem classStatement (more : h.Extends g n) (run : g.classStatement c = .ok s c')
    (low : 2 * s.height < n + 1) : h.classStatement c = .ok s c' := by
  obtain ⟨name, opens, methods, c₁, read, closes, rfl, rfl⟩ := classStatement_ok.mp run
  rw [Statement.height] at low
  have inside : items h.method c.next.next.next = .ok methods c₁ := by
    refine items_same read fun r member _ _ run => ?_
    have := routinesHeight_le_iff.mp (Nat.le_refl _) r member
    obtain ⟨async, c₂, word, run⟩ := method_ok.mp run
    exact method_ok.mpr ⟨async, c₂, word, more.routine run (by omega)⟩
  exact classStatement_ok.mpr ⟨name, opens, methods, c₁, inside, closes, rfl, rfl⟩

theorem declaration (more : h.Extends g n) (run : g.declaration c = .ok s c')
    (low : 2 * s.height < n + 1) : h.declaration c = .ok s c' := by
  obtain ⟨name, type, c₁, typed, initial, c₂, read, closes, rfl, rfl⟩ := declaration_ok.mp run
  have value : h.initialValue (decide (c.peek.kind ≠ .letWord)) c₁ = .ok initial c₂ := by
    rcases initialValue_ok.mp read with ⟨mark, e, value, rfl⟩ | none
    · rw [Statement.height] at low
      exact initialValue_ok.mpr (.inl ⟨mark, e, more.lower value (by omega), rfl⟩)
    · exact initialValue_ok.mpr (.inr none)
  exact declaration_ok.mpr ⟨name, type, c₁, typed, initial, c₂, value, closes, rfl, rfl⟩

theorem alternative (more : h.Extends g n) (run : g.alternative c = .ok s c')
    (low : 2 * s.height < n) : h.alternative c = .ok s c' := by
  rcases alternative_ok.mp run with ⟨word, run⟩ | ⟨other, run⟩
  · exact alternative_ok.mpr (.inl ⟨word, more.statement run low⟩)
  · exact alternative_ok.mpr (.inr ⟨other, more.blockStatement run (by omega)⟩)

theorem conditional (more : h.Extends g n) (run : g.conditional c = .ok s c')
    (low : 2 * s.height < n + 1) : h.conditional c = .ok s c' := by
  obtain ⟨condition, c₁, first, body, c₂, inside, otherwise, c₃, last, rfl, rfl⟩ :=
    conditional_ok.mp run
  have bounds : 2 * (1 + max condition.ungrouped.height (bodyHeight body)) < n + 1 ∧
      ∀ s ∈ otherwise, 2 * s.height < n := by
    cases otherwise with
    | none =>
        rw [Statement.height] at low
        exact ⟨low, fun s none => nomatch none⟩
    | some other =>
        rw [Statement.height] at low
        refine ⟨by omega, fun s member => ?_⟩
        cases member
        omega
  have others := optionally_same last fun s member _ _ run =>
    more.alternative run (bounds.2 s member)
  exact conditional_ok.mpr ⟨condition, c₁, more.ungrouped first (by omega), body, c₂,
    more.block inside (by omega), otherwise, c₃, others, rfl, rfl⟩

theorem attempt (more : h.Extends g n) (run : g.attempt c = .ok s c')
    (low : 2 * s.height < n + 1) : h.attempt c = .ok s c' := by
  obtain ⟨body, c₁, inside, handler, c₂, caught, cleanup, c₃, cleaned, either, rfl, rfl⟩ :=
    attempt_ok.mp run
  rw [Statement.height] at low
  have handles : optionally .catchWord h.handler c₁ = .ok handler c₂ := by
    refine optionally_same caught fun first member _ _ handled => ?_
    cases member
    obtain ⟨binding, d₁, bound, inner, d₂, read, rfl, rfl⟩ := handler_ok.mp handled
    rw [handlerHeight] at low
    exact handler_ok.mpr ⟨binding, d₁, bound, inner, d₂, more.block read (by omega), rfl, rfl⟩
  have cleans : optionally .finallyWord h.block c₂ = .ok cleanup c₃ := by
    refine optionally_same cleaned fun inner member _ _ block => ?_
    cases member
    rw [cleanupHeight] at low
    exact more.block block (by omega)
  exact attempt_ok.mpr ⟨body, c₁, more.block inside (by omega), handler, c₂, handles, cleanup, c₃,
    cleans, either, rfl, rfl⟩

theorem returning (more : h.Extends g n) (run : g.returning c = .ok s c')
    (low : 2 * s.height < n + 1) : h.returning c = .ok s c' := by
  obtain ⟨value, c₁, read, closes, rfl, rfl⟩ := returning_ok.mp run
  have same : h.returnValue c.next = .ok value c₁ := by
    rcases returnValue_ok.mp read with none | ⟨other, e, value, rfl⟩
    · exact returnValue_ok.mpr (.inl none)
    · rw [Statement.height] at low
      exact returnValue_ok.mpr (.inr ⟨other, e, more.lower value (by omega), rfl⟩)
  exact returning_ok.mpr ⟨value, c₁, same, closes, rfl, rfl⟩

theorem expressionStatement (more : h.Extends g n) (run : g.expressionStatement c = .ok s c')
    (low : 2 * s.height < n + 1) : h.expressionStatement c = .ok s c' := by
  obtain ⟨value, c₁, read, ends⟩ := expressionStatement_ok.mp run
  have height : s.height = 1 + value.height := by
    rcases ends with ⟨_, rfl, _⟩ | ⟨_, _, rfl, _⟩ <;> rw [Statement.height]
  exact expressionStatement_ok.mpr ⟨value, c₁, more.lower read (by omega), ends⟩

theorem anyStatement (more : h.Extends g n) (run : g.anyStatement c = .ok s c')
    (low : 2 * s.height < n + 1) : h.anyStatement c = .ok s c' := by
  refine anyStatement_ok.mpr ?_
  rcases anyStatement_ok.mp run with ⟨begins, run⟩ | ⟨begins, run⟩ | ⟨begins, run⟩ |
    ⟨begins, run⟩ | ⟨begins, run⟩ | ⟨begins, run⟩ | ⟨begins, run⟩ | ⟨begins, run⟩ | ⟨begins, run⟩
  · obtain ⟨r, c₁, read, rfl, rfl⟩ := functionStatement_ok.mp run
    rw [Statement.height] at low
    have same := functionStatement_ok.mpr ⟨r, c₁, more.function read (by omega), rfl, rfl⟩
    exact .inl ⟨begins, same⟩
  · obtain ⟨r, c₁, read, rfl, rfl⟩ := asyncStatement_ok.mp run
    rw [Statement.height] at low
    have same := asyncStatement_ok.mpr ⟨r, c₁, more.function read (by omega), rfl, rfl⟩
    exact .inr (.inl ⟨begins, same⟩)
  · exact .inr (.inr (.inl ⟨begins, more.classStatement run low⟩))
  · exact .inr (.inr (.inr (.inl ⟨begins, more.declaration run low⟩)))
  · exact .inr (.inr (.inr (.inr (.inl ⟨begins, more.conditional run low⟩))))
  · exact .inr (.inr (.inr (.inr (.inr (.inl ⟨begins, more.attempt run low⟩)))))
  · exact .inr (.inr (.inr (.inr (.inr (.inr (.inl ⟨begins, more.returning run low⟩))))))
  · exact .inr (.inr (.inr (.inr (.inr (.inr (.inr (.inl
      ⟨begins, more.blockStatement run low⟩)))))))
  · exact .inr (.inr (.inr (.inr (.inr (.inr (.inr (.inr
      ⟨begins, more.expressionStatement run low⟩)))))))

theorem nest (more : h.Extends g n) (room : Nat) : (h.nest n).Extends (g.nest room) (n + 1) where
  statement := more.anyStatement
  expression := more.chain

end Grammar.Extends

/-- However many levels a tree was read with, more levels than it needs read it. -/
theorem Grammar.extends_ofRoom (n room : Nat) : (ofRoom n).Extends (ofRoom room) n := by
  induction n generalizing room with
  | zero =>
      constructor
      · intro c c' s run low
        omega
      · intro min c c' e run low
        omega
  | succ n ih =>
      cases room with
      | zero =>
          constructor
          · intro c c' s run
            cases run
          · intro min c c' e run
            cases run
      | succ room => exact (ih room).nest room

end TwoScript
