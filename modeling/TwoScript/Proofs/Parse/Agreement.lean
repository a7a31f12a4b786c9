import TwoScript.Parse.Program
import TwoScript.Proofs.Parse.Pairing
import TwoScript.Proofs.Parse.Success

/-!
# Readers agree on inputs that look alike

Every reader of the grammar, run on two cursors that belong together, gives results
that look alike. One level on top of a grammar that agrees agrees, so every grammar
built by levels does: `Grammar.agrees_ofRoom`.
-/

namespace TwoScript

open TwoScript.Parser

namespace Pairing

variable {v : View} (P : Pairing v) (k : Nat)

/-- Both runs read expressions that look alike, or fail alike. -/
abbrev Exprs := Agree P (Expr.relabel v.left) (Expr.relabel v.right) ⟨false, k, false⟩

abbrev Statements :=
  Agree P (Statement.relabel v.left) (Statement.relabel v.right) ⟨false, k, true⟩

abbrev Bodies := Agree P (bodyRelabel v.left) (bodyRelabel v.right) ⟨false, k, false⟩

end Pairing

/-- The grammar gives results that look alike on cursors that belong together. -/
structure Grammar.Agrees (g : Grammar) (v : View) : Prop where
  statement {P : Pairing v} {k : Nat} {c d : Cursor} : P.rel ⟨true, k, false⟩ c d →
    P.Statements k (g.statement c) (g.statement d)
  expression {P : Pairing v} {k : Nat} {c d : Cursor} (min : Precedence) :
    P.rel ⟨true, k, false⟩ c d → P.Exprs k (g.expression min c) (g.expression min d)

namespace Grammar

variable {g : Grammar} {v : View} {P : Pairing v} {k : Nat} {c d : Cursor}

/-! ## Primary expressions -/

theorem literal_agree (here : P.rel ⟨true, k, false⟩ c d) (plain : c.peek.kind.isPlain = true) :
    P.Exprs k (literal c) (literal d) := by
  have token := P.peek here
  have inner : c.peek.kind ≠ .endOfFile := Kind.ne_of_isPlain plain rfl
  simp only [literal, advance_bind]
  rw [← token.literal inner]
  cases c.peek.literal with
  | none =>
      refine .error ?_ (P.anew (P.plain here plain))
      simp [View.Errors, ParseError.relabel, token.text inner, token.span]
  | some value => exact .ok (by simp [Expr.relabel, token.span]) (P.plain here plain)

theorem ident_agree (here : P.rel ⟨true, k, false⟩ c d) (begins : c.peek.kind = .identifier) :
    P.Exprs k (ident c) (ident d) := by
  have token := P.peek here
  simp only [ident, advance_bind]
  refine .ok ?_ (P.plain here (by rw [begins]; rfl))
  simp [Expr.relabel, token.span, token.name begins]

namespace Agrees

theorem group (agrees : g.Agrees v) (here : P.rel ⟨true, k, false⟩ c d)
    (begins : c.peek.kind = .leftParen) :
    P.Exprs k (g.group c) (g.group d) := by
  simp only [Grammar.group, here_bind, discard_advance_bind]
  have inside := P.anew (P.plain here (by rw [begins]; rfl))
  refine (agrees.expression .lowest inside).bind fun same there => ?_
  simp only [discard_expect_bind, spanFrom_bind, pure_run]
  refine .guard there fun close => ?_
  have behind := P.plain there (by rw [close]; rfl)
  exact .ok (by simp [Expr.relabel, same, P.spanFrom behind (P.peek here).span, Cursor.span]) behind

theorem unary (agrees : g.Agrees v) {op : UnaryOp} (here : P.rel ⟨true, k, false⟩ c d)
    (plain : c.peek.kind.isPlain = true) :
    P.Exprs k (g.unary op c) (g.unary op d) := by
  simp only [Grammar.unary, here_bind, discard_advance_bind]
  refine (agrees.expression .unary (P.anew (P.plain here plain))).bind fun same there => ?_
  simp only [spanFrom_bind, pure_run]
  exact .ok (by simp [Expr.relabel, same, P.spanFrom there (P.peek here).span, Cursor.span]) there

theorem await (agrees : g.Agrees v) (here : P.rel ⟨true, k, false⟩ c d)
    (plain : c.peek.kind.isPlain = true) :
    P.Exprs k (g.await c) (g.await d) := by
  simp only [Grammar.await, here_bind, discard_advance_bind]
  refine (agrees.expression .unary (P.anew (P.plain here plain))).bind fun same there => ?_
  simp only [spanFrom_bind, pure_run]
  exact .ok (by simp [Expr.relabel, same, P.spanFrom there (P.peek here).span, Cursor.span]) there

/-! ## Blocks -/

theorem block (agrees : g.Agrees v) (here : P.rel ⟨true, k, false⟩ c d) :
    P.Bodies k (g.block c) (g.block d) := by
  simp only [Grammar.block, discard_expect_bind]
  refine .guard here fun opening => ?_
  refine (Agree.items (fun here => agrees.statement (P.anew here)) (P.opens here opening)).bind
    fun same there => ?_
  simp only [discard_expect_bind, pure_run]
  refine .guard there fun closing => .ok ?_ (P.closes there closing)
  rw [bodyRelabel_eq_map, bodyRelabel_eq_map, same]

theorem blockStatement (agrees : g.Agrees v) (here : P.rel ⟨true, k, false⟩ c d) :
    Agree P (Statement.relabel v.left) (Statement.relabel v.right) ⟨false, k, false⟩
      (g.blockStatement c) (g.blockStatement d) := by
  simp only [Grammar.blockStatement, here_bind]
  refine (agrees.block here).bind fun same there => ?_
  simp only [spanFrom_bind, pure_run]
  refine .ok ?_ there
  simp [Statement.relabel, same, P.spanFrom there (P.peek here).span, Cursor.span]

end Agrees

/-! ## Selections -/

theorem negatedLiteral_agree {s s' : Span} (here : P.rel ⟨true, k, false⟩ c d)
    (start : v.left.span s = v.right.span s') (plain : c.peek.kind.isPlain = true) :
    P.Exprs k (negatedLiteral s c) (negatedLiteral s' d) := by
  have token := P.peek here
  have inner : c.peek.kind ≠ .endOfFile := Kind.ne_of_isPlain plain rfl
  have there := P.plain here plain
  have span := P.spanFrom there start
  simp only [negatedLiteral, literal, bind_assoc_run, advance_bind]
  rw [← token.literal inner]
  cases c.peek.literal with
  | none =>
      refine .error ?_ (P.anew there)
      simp [View.Errors, ParseError.relabel, token.text inner, token.span]
  | some value =>
      cases value with
      | number x => exact .ok (by simp [Expr.relabel, span]) there
      | _ => exact .error (by simp [View.Errors, ParseError.relabel, span]) (P.anew there)

theorem negatedNumber_agree (here : P.rel ⟨true, k, false⟩ c d)
    (begins : c.peek.kind = .minus) : P.Exprs k (negatedNumber c) (negatedNumber d) := by
  have there := P.anew (P.plain here (by rw [begins]; rfl))
  simp only [negatedNumber, here_bind, discard_advance_bind, sees_bind, ite_run, decide_eq_true_eq,
    unexpected_run]
  refine .guard there fun number => ?_
  exact negatedLiteral_agree there (P.peek here).span (by rw [number]; rfl)

theorem pattern_agree (here : P.rel ⟨true, k, false⟩ c d) :
    P.Exprs k (pattern c) (pattern d) := by
  have kind := (P.peek here).kind
  simp only [pattern, peek_bind]
  rw [← kind]
  cases begins : c.peek.kind
  case minus => exact negatedNumber_agree here begins
  case number | string | trueWord | falseWord | nullWord =>
    exact literal_agree here (by rw [begins]; rfl)
  all_goals exact .fail here

theorem armPattern_agree (here : P.rel ⟨true, k, false⟩ c d) :
    Agree P (Option.map (Expr.relabel v.left)) (Option.map (Expr.relabel v.right))
      ⟨false, k, false⟩ (armPattern c) (armPattern d) := by
  simp only [armPattern, accept_bind]
  refine .branch here (fun word => .ok rfl (P.plain here (by rw [word]; rfl))) fun _ => ?_
  exact (pattern_agree here).map (congrArg some)

theorem armEnd_agree (here : P.rel ⟨false, k, false⟩ c d) :
    Agree P id id ⟨false, k, true⟩ (armEnd c) (armEnd d) := by
  simp only [armEnd, accept_bind]
  refine .branch here (fun comma => .ok rfl (P.finish (P.plain here (by rw [comma]; rfl)))) fun _ => ?_
  show Agree P id id ⟨false, k, true⟩ (discard (accept .semicolon) c) (discard (accept .semicolon) d)
  rw [discard_accept_run, discard_accept_run]
  refine .ok rfl ?_
  rw [← (P.peek here).kind]
  split
  · rename_i semicolon
    exact P.ends here semicolon
  · exact P.finish here

namespace Agrees

theorem armBody (agrees : g.Agrees v) (here : P.rel ⟨true, k, false⟩ c d) :
    Agree P (Statement.relabel v.left) (Statement.relabel v.right) ⟨false, k, false⟩
      (g.armBody c) (g.armBody d) := by
  simp only [Grammar.armBody, sees_bind, ite_run, decide_eq_true_eq]
  refine .branch here (fun _ => agrees.blockStatement here) fun _ => ?_
  simp only [Grammar.armValue]
  refine (agrees.expression .lowest here).bind fun same there => ?_
  exact .ok (by simp [Statement.relabel, same, View.Exprs.span same]) there

theorem arm (agrees : g.Agrees v) (here : P.rel ⟨true, k, false⟩ c d) :
    Agree P (Arm.relabel v.left) (Arm.relabel v.right) ⟨false, k, true⟩ (g.arm c) (g.arm d) := by
  simp only [Grammar.arm]
  refine (armPattern_agree here).bind fun pattern there => ?_
  simp only [discard_expect_bind]
  refine .guard there fun arrow => ?_
  have inside := P.anew (P.plain there (by rw [arrow]; rfl))
  refine (agrees.armBody inside).bind fun body there => ?_
  refine (armEnd_agree there).bind fun _ behind => ?_
  exact .ok (by simp [Arm.relabel, pattern, body]) behind

theorem selection (agrees : g.Agrees v) (here : P.rel ⟨true, k, false⟩ c d)
    (begins : c.peek.kind = .matchWord) : P.Exprs k (g.selection c) (g.selection d) := by
  simp only [Grammar.selection, here_bind, discard_advance_bind]
  have inside := P.anew (P.plain here (by rw [begins]; rfl))
  refine (agrees.expression .lowest inside).bind fun subject there => ?_
  simp only [discard_expect_bind]
  refine .guard there fun opening => ?_
  refine (Agree.items (fun here => agrees.arm (P.anew here)) (P.opens there opening)).bind
    fun arms there => ?_
  simp only [discard_expect_bind, spanFrom_bind, pure_run]
  refine .guard there fun closing => ?_
  have behind := P.closes there closing
  refine .ok ?_ behind
  simp [Expr.relabel, armsRelabel_eq_map, arms, P.spanFrom behind (P.peek here).span, Cursor.span,
    View.Exprs.ungrouped subject]

end Agrees

/-! ## Templates -/

def AlikeSegments (v : View) : List Segment → List Segment → Prop
  | [], [] => True
  | .text cs :: ss, .text cs' :: ss' => cs = cs' ∧ AlikeSegments v ss ss'
  | .source p cs :: ss, .source p' cs' :: ss' =>
    v.places p p' ∧ cs = cs' ∧ AlikeSegments v ss ss'
  | _, _ => False

theorem AlikeSegments.pushText {ss ss' : List Segment} (h : AlikeSegments v ss ss') (c : Char) :
    AlikeSegments v (Segment.pushText c ss) (Segment.pushText c ss') := by
  rcases ss with _ | ⟨_ | _, ss⟩ <;> rcases ss' with _ | ⟨_ | _, ss'⟩ <;>
    simp_all [Segment.pushText, AlikeSegments]

theorem AlikeSegments.pushSource {ss ss' : List Segment} (h : AlikeSegments v ss ss')
    (c : Char) : AlikeSegments v (Segment.pushSource c ss) (Segment.pushSource c ss') := by
  rcases ss with _ | ⟨_ | _, ss⟩ <;> rcases ss' with _ | ⟨_ | _, ss'⟩ <;>
    simp_all [Segment.pushSource, AlikeSegments]

theorem alikeSegments {begun begun' here here' : Place} (m : TemplateMode) (cs : List Char)
    (begins : v.places begun begun') (places : v.places here here') :
    AlikeSegments v (segments m begun here cs) (segments m begun' here' cs) := by
  induction cs generalizing m begun begun' here here' with
  | nil => cases m <;> simp [segments, AlikeSegments, begins]
  | cons c cs ih =>
      have there := v.after [c] places
      cases m with
      | text =>
          simp only [segments]
          split
          · exact ih _ begins there
          · exact (ih _ begins there).pushText c
      | escape => exact (ih _ begins there).pushText c
      | brace => exact ih _ there there
      | source n =>
          simp only [segments]
          split
          · exact ⟨begins, rfl, ih _ begins there⟩
          · exact (ih _ begins there).pushSource c

namespace Agrees

def outcome {α γ : Type} (v : View) (r : Labels) (f : α → γ) :
    Except ParseError α → Except ParseError γ
  | .ok a => .ok (f a)
  | .error e => .error (e.relabel r.span v.text)

theorem interpolation (agrees : g.Agrees v) {p p' : Place} (cs : List Char)
    (places : v.places p p') :
    outcome v v.left (Expr.relabel v.left) (g.interpolation p cs) =
      outcome v v.right (Expr.relabel v.right) (g.interpolation p' cs) := by
  have start : (Pairing.alike v 0).rel ⟨true, 0, false⟩ (Cursor.ofTokens (tokensFrom p cs))
      (Cursor.ofTokens (tokensFrom p' cs)) :=
    ⟨View.ahead_ofTokens cs places, .inl trivial⟩
  unfold Grammar.interpolation
  rcases (agrees.expression .lowest start).ends with ⟨a, b, c₁, d₁, left, right, same, there⟩ |
    ⟨e, e', c₁, d₁, k, left, right, same, _⟩
  · have ended : c₁.atEnd = d₁.atEnd := by
      have lengths := (Pairing.alike v 0).length there
      simp only [Cursor.atEnd]
      rw [Bool.eq_iff_iff, List.isEmpty_iff_length_eq_zero, List.isEmpty_iff_length_eq_zero, lengths]
      simp [Pairing.alike]
    rw [left, right]
    simp only [← ended]
    split
    · simp [outcome, same]
    · exact congrArg Except.error (Agree.failure there _)
  · rw [left, right]
    exact congrArg Except.error same

theorem part (agrees : g.Agrees v) {s s' : Segment} {ss ss' : List Segment}
    (alike : AlikeSegments v (s :: ss) (s' :: ss')) :
    outcome v v.left (Part.relabel v.left) (g.part s) =
      outcome v v.right (Part.relabel v.right) (g.part s') := by
  cases s with
  | text cs => cases s' with
    | text cs' => rw [alike.1]; rfl
    | source p' cs' => cases alike
  | source p cs => cases s' with
    | text cs' => cases alike
    | source p' cs' =>
        obtain ⟨places, rfl, _⟩ := alike
        have inside := agrees.interpolation cs places
        simp only [Grammar.part]
        revert inside
        rcases g.interpolation p cs with e | e <;> rcases g.interpolation p' cs with e' | e' <;>
          simp [outcome, Except.map, Part.relabel]

theorem parts (agrees : g.Agrees v) {ss ss' : List Segment} (alike : AlikeSegments v ss ss') :
    outcome v v.left (partsRelabel v.left) (ss.mapM g.part) =
      outcome v v.right (partsRelabel v.right) (ss'.mapM g.part) := by
  induction ss generalizing ss' with
  | nil => cases ss' with
    | nil => rfl
    | cons => cases alike
  | cons s ss ih => cases ss' with
    | nil => cases s <;> cases alike
    | cons s' ss' =>
        have first := agrees.part alike
        have rest : AlikeSegments v ss ss' := by
          cases s <;> cases s' <;> simp_all [AlikeSegments]
        have later := ih rest
        rw [List.mapM_cons, List.mapM_cons]
        revert first later
        rcases g.part s with e | e <;> rcases g.part s' with e' | e' <;>
          rcases ss.mapM g.part with es | es <;> rcases ss'.mapM g.part with es' | es' <;>
          simp_all [outcome, bind, Except.bind, pure, Except.pure, partsRelabel_eq_map]

theorem template (agrees : g.Agrees v) (here : P.rel ⟨true, k, false⟩ c d)
    (begins : c.peek.kind = .template) : P.Exprs k (g.template c) (g.template d) := by
  have token := P.peek here
  have there := P.plain here (by rw [begins]; rfl)
  have body : templateBody c.peek = templateBody d.peek := by
    simp only [templateBody, token.literal (by simp [begins])]
  have alike : AlikeSegments v
      (templateSegments ⟨c.peek.span.start + 1, c.peek.span.line⟩ (templateBody c.peek))
      (templateSegments ⟨d.peek.span.start + 1, d.peek.span.line⟩ (templateBody d.peek)) := by
    rw [← body]
    exact alikeSegments _ _ (v.inside token.span) (v.inside token.span)
  have parts := agrees.parts alike
  simp only [Grammar.template, advance_bind]
  revert parts
  rcases List.mapM g.part _ with e | es <;> rcases List.mapM g.part _ with e' | es' <;>
    simp only [outcome, Except.ok.injEq, Except.error.injEq, reduceCtorEq, false_imp_iff] <;>
    intro same
  · refine .error ?_ (P.anew there)
    simp [View.Errors, ParseError.relabel, same, token.span]
  · refine .ok ?_ there
    simp [Expr.relabel, same, token.span]

/-! ## Operators -/

theorem operand (agrees : g.Agrees v) (here : P.rel ⟨true, k, false⟩ c d) :
    P.Exprs k (g.operand c) (g.operand d) := by
  have token := P.peek here
  have kind := token.kind
  simp only [Grammar.operand, peek_bind]
  rw [← kind]
  cases begins : c.peek.kind
  case number | string | trueWord | falseWord | nullWord =>
    exact literal_agree here (by rw [begins]; rfl)
  case template => exact agrees.template here begins
  case identifier => exact ident_agree here begins
  case leftParen => exact agrees.group here begins
  case matchWord => exact agrees.selection here begins
  case bang | minus | tilde => exact agrees.unary here (by rw [begins]; rfl)
  case awaitWord => exact agrees.await here (by rw [begins]; rfl)
  case invalid | endOfFile => exact .fail here
  all_goals
    have text := token.text (by simp [begins])
    exact .error (by simp [View.Errors, ParseError.relabel, text, token.span]) here

theorem callOf (agrees : g.Agrees v) {callee callee' : Expr}
    (same : v.Exprs callee callee') (here : P.rel ⟨false, k, false⟩ c d) :
    P.Exprs k (g.callOf callee c) (g.callOf callee' d) := by
  simp only [Grammar.callOf]
  refine (Agree.separated (fun here => agrees.expression .lowest (P.anew here)) here).bind
    fun args there => ?_
  simp only [discard_expect_bind, spanFrom_bind, pure_run]
  refine .guard there fun close => ?_
  have behind := P.plain there (by rw [close]; rfl)
  refine .ok ?_ behind
  simp [Expr.relabel, argsRelabel_eq_map, args, P.spanFrom behind same.span, same]

/-- The member behind a dot, which has the same name in both runs, or the end of both. -/
theorem memberOf (v : View) {P : Pairing v} {object object' : Expr}
    (same : v.Exprs object object') (here : P.rel ⟨false, k, false⟩ c d)
    (dot : c.peek.kind = .dot) :
    P.Exprs k (memberOf object c.next) (memberOf object' d.next) := by
  have there := P.plain here (by rw [dot]; rfl)
  simp only [Grammar.memberOf, property, bind_assoc_run, peek_bind]
  rw [← (P.peek there).kind]
  rcases P.dot here dot with text | ⟨ended, left, right⟩
  · rw [← text]
    split
    · rename_i isProperty
      have behind := P.property here dot isProperty
      simp only [bind_assoc_run, discard_advance_bind]
      refine .ok ?_ behind
      simp [Expr.relabel, P.spanFrom behind same.span, same]
    · exact .fail there
  · rw [if_neg (by simp [ended, left]), if_neg (by simp [ended, right])]
    exact .fail there

theorem assignmentTo (agrees : g.Agrees v) {op : AssignOp} {target target' : Expr}
    (same : v.Exprs target target') (here : P.rel ⟨false, k, false⟩ c d) :
    P.Exprs k (g.assignmentTo op target c) (g.assignmentTo op target' d) := by
  simp only [Grammar.assignmentTo, ← same.isAssignable]
  split
  · refine (agrees.expression .lowest (P.anew here)).bind fun value there => ?_
    refine .ok ?_ there
    simp [Expr.relabel, same, value, v.merge same.span (View.Exprs.span value)]
  · exact .error (by simp [View.Errors, ParseError.relabel, same.span]) (P.anew here)

theorem operationOn (agrees : g.Agrees v) {op : BinaryOp} {min : Precedence}
    {left left' : Expr} (same : v.Exprs left left') (here : P.rel ⟨false, k, false⟩ c d) :
    P.Exprs k (g.operationOn op min left c) (g.operationOn op min left' d) := by
  simp only [Grammar.operationOn]
  refine (agrees.expression min (P.anew here)).bind fun right there => ?_
  refine .ok ?_ there
  simp [Expr.relabel, same, right, v.merge same.span (View.Exprs.span right)]

theorem continuation (agrees : g.Agrees v) {left left' : Expr} (same : v.Exprs left left')
    (here : P.rel ⟨false, k, false⟩ c d) (plain : c.peek.kind.isPlain = true) :
    P.Exprs k (g.continuation left c) (g.continuation left' d) := by
  have token := P.peek here
  have kind := token.kind
  have there := P.plain here plain
  rw [continuation_run, continuation_run, ← kind]
  split
  · exact agrees.callOf same there
  · split
    · rename_i dot
      exact memberOf v same here dot
    · split
      · exact agrees.assignmentTo same there
      · split
        · exact agrees.operationOn same there
        · have text := token.text (Kind.ne_of_isPlain plain rfl)
          exact .error (by simp [View.Errors, ParseError.relabel, text, token.span])
            (P.anew there)

theorem extend (agrees : g.Agrees v) {room : Nat} {min : Precedence} {chain chain' : Chain}
    (same : v.Exprs chain.expr chain'.expr) (height : chain.height = chain'.height)
    (here : P.rel ⟨false, k, false⟩ c d) :
    Agree P (Option.map fun ch : Chain => (ch.expr.relabel v.left, ch.height))
      (Option.map fun ch : Chain => (ch.expr.relabel v.right, ch.height)) ⟨false, k, false⟩
      (g.extend room min chain c) (g.extend room min chain' d) := by
  have token := P.peek here
  simp only [Grammar.extend, peek_bind, ite_run, ← token.kind]
  split
  · exact .ok rfl here
  · rename_i tighter
    have plain : c.peek.kind.isPlain = true := by
      revert tighter
      cases c.peek.kind <;> first
        | exact fun _ => rfl
        | exact fun tighter => (tighter (Nat.zero_le _)).elim
    refine (agrees.continuation same here plain).bind fun {e e' c₁ d₁} expr there => ?_
    simp only [height, View.Exprs.trailingHeight expr]
    split
    · exact .error (by simp [View.Errors, ParseError.relabel, token.span]) (P.anew there)
    · exact .ok (by simp [expr]) there

theorem chain (agrees : g.Agrees v) (room : Nat) (min : Precedence)
    (here : P.rel ⟨true, k, false⟩ c d) : P.Exprs k (g.chain room min c) (g.chain room min d) := by
  simp only [Grammar.chain]
  refine (agrees.operand here).bind fun {e e' c₁ d₁} first there => ?_
  refine (Agree.iterate (f := fun ch : Chain => (ch.expr.relabel v.left, ch.height))
    (g := fun ch : Chain => (ch.expr.relabel v.right, ch.height)) (fun both here => ?_) ?_ there).bind
    fun both there => .ok (Prod.mk.inj both).1 there
  · obtain ⟨same, height⟩ := Prod.mk.inj both
    exact agrees.extend same height here
  · exact Prod.ext first (View.Exprs.height first)

end Agrees

/-! ## Variables -/

theorem typeName_agree (here : P.rel ⟨true, k, false⟩ c d) :
    Agree P v.left.type v.right.type ⟨false, k, false⟩ (typeName c) (typeName d) := by
  have token := P.peek here
  have kind := token.kind
  simp only [typeName, peek_bind]
  rw [← kind]
  split
  · rename_i begins
    refine .ok (token.type begins) (P.plain here ?_)
    rcases begins with begins | begins <;> rw [begins] <;> rfl
  · exact .fail here

theorem typeBehind_agree {mark : Kind} (here : P.rel ⟨false, k, false⟩ c d)
    (plain : mark.isPlain = true) :
    Agree P (Option.map v.left.type) (Option.map v.right.type) ⟨false, k, false⟩
      (optionally mark typeName c) (optionally mark typeName d) :=
  .optionally here here plain fun there => typeName_agree (P.anew there)

namespace Agrees

theorem initialValue (agrees : g.Agrees v) {constant : Bool}
    (here : P.rel ⟨false, k, false⟩ c d) :
    Agree P (Option.map (Expr.relabel v.left)) (Option.map (Expr.relabel v.right))
      ⟨false, k, false⟩ (g.initialValue constant c) (g.initialValue constant d) := by
  simp only [Grammar.initialValue, accept_bind]
  refine .branch here (fun mark => ?_) fun _ => ?_
  · have there := P.anew (P.plain here (by rw [mark]; rfl))
    exact (agrees.expression .lowest there).map (congrArg some)
  · cases constant with
    | true => exact .fail here
    | false => exact .ok rfl here

theorem declaration (agrees : g.Agrees v) (here : P.rel ⟨true, k, false⟩ c d)
    (plain : c.peek.kind.isPlain = true) : P.Statements k (g.declaration c) (g.declaration d) := by
  have token := P.peek here
  have there := P.plain here plain
  simp only [Grammar.declaration, advance_bind, name_bind, ← token.kind]
  refine .guard there fun name => ?_
  have behind := P.plain there (by rw [name]; rfl)
  refine (typeBehind_agree behind rfl).bind fun type behind => ?_
  refine (agrees.initialValue behind).bind fun initial behind => ?_
  simp only [discard_expect_bind, spanFrom_bind, pure_run]
  refine .guard behind fun close => ?_
  have last := P.ends behind close
  refine .ok ?_ last
  simp [Statement.relabel_declare, P.spanFrom last token.span, type, initial,
    (P.peek there).name name]

/-! ## Routines and classes -/

theorem parameter (agrees : g.Agrees v) (here : P.rel ⟨false, k, false⟩ c d) :
    Agree P (Parameter.relabel v.left) (Parameter.relabel v.right) ⟨false, k, false⟩
      (g.parameter c) (g.parameter d) := by
  simp only [Grammar.parameter, name_bind]
  refine .guard here fun name => ?_
  have there := P.plain here (by rw [name]; rfl)
  refine (typeBehind_agree there rfl).bind fun type there => ?_
  refine (Agree.optionally there there rfl fun there =>
    agrees.expression .assignment (P.anew there)).bind fun default there => ?_
  refine .ok ?_ there
  simp [Parameter.relabel, type, default, (P.peek here).name name]

theorem routine (agrees : g.Agrees v) {async : Bool} (here : P.rel ⟨true, k, false⟩ c d) :
    Agree P (Routine.relabel v.left) (Routine.relabel v.right) ⟨false, k, false⟩
      (g.routine async c) (g.routine async d) := by
  simp only [Grammar.routine, name_bind]
  refine .guard here fun name => ?_
  have there := P.plain here (by rw [name]; rfl)
  simp only [discard_expect_bind]
  refine .guard there fun opening => ?_
  have inside := P.plain there (by rw [opening]; rfl)
  refine (Agree.separated agrees.parameter inside).bind fun params there => ?_
  simp only [discard_expect_bind]
  refine .guard there fun closing => ?_
  have behind := P.plain there (by rw [closing]; rfl)
  refine (typeBehind_agree behind rfl).bind fun returns behind => ?_
  refine (agrees.block (P.anew behind)).bind fun body behind => ?_
  refine .ok ?_ behind
  simp [Routine.relabel, paramsRelabel_eq_map, params, returns, body, (P.peek here).name name]

theorem function (agrees : g.Agrees v) {async : Bool} (here : P.rel ⟨true, k, false⟩ c d) :
    Agree P (Routine.relabel v.left) (Routine.relabel v.right) ⟨false, k, false⟩
      (g.function async c) (g.function async d) := by
  simp only [Grammar.function, discard_expect_bind]
  refine .guard here fun word => ?_
  exact agrees.routine (P.anew (P.plain here (by rw [word]; rfl)))

theorem functionStatement (agrees : g.Agrees v) (here : P.rel ⟨true, k, false⟩ c d) :
    P.Statements k (g.functionStatement c) (g.functionStatement d) := by
  simp only [Grammar.functionStatement, here_bind]
  refine (agrees.function here).bind fun same there => ?_
  simp only [spanFrom_bind, pure_run]
  refine .ok ?_ (P.finish there)
  simp [Statement.relabel, same, P.spanFrom there (P.peek here).span, Cursor.span]

theorem asyncStatement (agrees : g.Agrees v) (here : P.rel ⟨true, k, false⟩ c d)
    (plain : c.peek.kind.isPlain = true) :
    P.Statements k (g.asyncStatement c) (g.asyncStatement d) := by
  simp only [Grammar.asyncStatement, here_bind, discard_advance_bind]
  refine (agrees.function (P.anew (P.plain here plain))).bind fun same there => ?_
  simp only [spanFrom_bind, pure_run]
  refine .ok ?_ (P.finish there)
  simp [Statement.relabel, same, P.spanFrom there (P.peek here).span, Cursor.span]

theorem method (agrees : g.Agrees v) (here : P.rel ⟨false, k, false⟩ c d) :
    Agree P (Routine.relabel v.left) (Routine.relabel v.right) ⟨false, k, false⟩
      (g.method c) (g.method d) := by
  have word : ∀ {kind : Kind} {c d : Cursor}, kind.isPlain = true → P.rel ⟨false, k, false⟩ c d →
      P.rel ⟨false, k, false⟩ (if c.peek.kind = kind then c.next else c)
        (if d.peek.kind = kind then d.next else d) := by
    intro kind c d plain here
    rw [← (P.peek here).kind]
    split
    · rename_i same
      exact P.plain here (by rw [same]; exact plain)
    · exact here
  simp only [Grammar.method, accept_bind, discard_accept_bind]
  refine .branch here (fun async => ?_) fun _ => ?_
  · exact agrees.routine (P.anew (word rfl (P.plain here (by rw [async]; rfl))))
  · exact agrees.routine (P.anew (word rfl here))

theorem classStatement (agrees : g.Agrees v) (here : P.rel ⟨true, k, false⟩ c d)
    (plain : c.peek.kind.isPlain = true) :
    P.Statements k (g.classStatement c) (g.classStatement d) := by
  have there := P.plain here plain
  simp only [Grammar.classStatement, here_bind, discard_advance_bind, name_bind]
  refine .guard there fun name => ?_
  have behind := P.plain there (by rw [name]; rfl)
  simp only [discard_expect_bind]
  refine .guard behind fun opening => ?_
  refine (Agree.items (fun here => (agrees.method here).imp id P.finish)
    (P.opens behind opening)).bind fun methods behind => ?_
  simp only [discard_expect_bind, spanFrom_bind, pure_run]
  refine .guard behind fun closing => ?_
  have last := P.closes behind closing
  refine .ok ?_ (P.finish last)
  simp [Statement.relabel, routinesRelabel_eq_map, methods, (P.peek there).name name,
    P.spanFrom last (P.peek here).span, Cursor.span]

/-! ## Control flow -/

theorem alternative (agrees : g.Agrees v) (here : P.rel ⟨true, k, false⟩ c d) :
    P.Statements k (g.alternative c) (g.alternative d) := by
  simp only [Grammar.alternative, sees_bind, ite_run, decide_eq_true_eq]
  exact .branch here (fun _ => agrees.statement here)
    fun _ => (agrees.blockStatement here).imp id P.finish

theorem conditional (agrees : g.Agrees v) (here : P.rel ⟨true, k, false⟩ c d)
    (plain : c.peek.kind.isPlain = true) : P.Statements k (g.conditional c) (g.conditional d) := by
  simp only [Grammar.conditional, here_bind, discard_advance_bind]
  have inside := P.anew (P.plain here plain)
  refine (agrees.expression .lowest inside).bind fun condition there => ?_
  refine (agrees.block (P.anew there)).bind fun body there => ?_
  refine (Agree.optionally there (P.finish there) rfl fun there =>
    agrees.alternative (P.anew there)).bind fun otherwise there => ?_
  simp only [spanFrom_bind, pure_run]
  refine .ok ?_ there
  simp [Statement.relabel_conditional, View.Exprs.ungrouped condition, body, otherwise,
    P.spanFrom there (P.peek here).span, Cursor.span]

theorem handler (agrees : g.Agrees v) (here : P.rel ⟨false, k, false⟩ c d) :
    Agree P (Handler.relabel v.left) (Handler.relabel v.right) ⟨false, k, false⟩
      (g.handler c) (g.handler d) := by
  have caught : ∀ {c d : Cursor}, P.rel ⟨false, k, false⟩ c d →
      Agree P id id ⟨false, k, false⟩ (caughtName c) (caughtName d) := by
    intro c d here
    simp only [caughtName, name_bind, discard_expect_bind, pure_run]
    refine .guard here fun name => ?_
    have there := P.plain here (by rw [name]; rfl)
    refine .guard there fun close => ?_
    exact .ok ((P.peek here).name name) (P.plain there (by rw [close]; rfl))
  simp only [Grammar.handler]
  refine (Agree.optionally here here rfl caught).bind fun binding there => ?_
  refine (agrees.block (P.anew there)).bind fun body there => ?_
  refine .ok ?_ there
  simp only [Option.map_id_fun, id_eq] at binding
  simp [Handler.relabel, body, binding]

theorem attempt (agrees : g.Agrees v) (here : P.rel ⟨true, k, false⟩ c d)
    (plain : c.peek.kind.isPlain = true) : P.Statements k (g.attempt c) (g.attempt d) := by
  simp only [Grammar.attempt, here_bind, discard_advance_bind]
  refine (agrees.block (P.anew (P.plain here plain))).bind fun body there => ?_
  refine (Agree.optionally there there rfl agrees.handler).bind
    fun {handler handler' c₁ d₁} handlers there => ?_
  refine (Agree.optionally there there rfl fun there => agrees.block (P.anew there)).bind
    fun {cleanup cleanup' c₂ d₂} cleanups there => ?_
  have none : handler.isNone = handler'.isNone := by
    simpa using congrArg Option.isNone handlers
  have none' : cleanup.isNone = cleanup'.isNone := by
    simpa using congrArg Option.isNone cleanups
  rw [none, none']
  split
  · exact .fail there
  · refine .ok ?_ (P.finish there)
    simp [Statement.relabel, handlerRelabel_eq_map, cleanupRelabel_eq_map, handlers, cleanups, body,
      P.spanFrom there (P.peek here).span, Cursor.span]

theorem returning (agrees : g.Agrees v) (here : P.rel ⟨true, k, false⟩ c d)
    (plain : c.peek.kind.isPlain = true) : P.Statements k (g.returning c) (g.returning d) := by
  have there := P.plain here plain
  have value : Agree P (Option.map (Expr.relabel v.left)) (Option.map (Expr.relabel v.right))
      ⟨false, k, false⟩ (g.returnValue c.next) (g.returnValue d.next) := by
    simp only [Grammar.returnValue, sees_bind, ite_run, decide_eq_true_eq]
    refine .branch there (fun _ => .ok rfl there) fun _ => ?_
    exact (agrees.expression .lowest (P.anew there)).map (congrArg some)
  simp only [Grammar.returning, here_bind, discard_advance_bind]
  refine value.bind fun same behind => ?_
  simp only [discard_expect_bind, spanFrom_bind, pure_run]
  refine .guard behind fun close => ?_
  have last := P.ends behind close
  refine .ok ?_ last
  simp [Statement.relabel_returning, same, P.spanFrom last (P.peek here).span, Cursor.span]

theorem expressionStatement (agrees : g.Agrees v) (here : P.rel ⟨true, k, false⟩ c d) :
    P.Statements k (g.expressionStatement c) (g.expressionStatement d) := by
  have start := (P.peek here).span
  simp only [Grammar.expressionStatement, here_bind]
  refine (agrees.expression .lowest here).bind fun same there => ?_
  simp only [accept_bind]
  refine .branch there (fun mark => ?_) fun _ => ?_
  · have last := P.ends there mark
    refine .ok ?_ last
    simp [Statement.relabel, same, P.spanFrom last start, Cursor.span]
  · simp only [Bool.false_eq_true, false_or, View.Exprs.endsItself same]
    split
    · refine .ok ?_ (P.finish there)
      simp [Statement.relabel, same, P.spanFrom there start, Cursor.span]
    · exact .fail there

/-! ## Levels -/

theorem anyStatement (agrees : g.Agrees v) (here : P.rel ⟨true, k, false⟩ c d) :
    P.Statements k (g.anyStatement c) (g.anyStatement d) := by
  have kind := (P.peek here).kind
  simp only [Grammar.anyStatement, peek_bind]
  rw [← kind]
  cases begins : c.peek.kind
  case functionWord => exact agrees.functionStatement here
  case asyncWord => exact agrees.asyncStatement here (by rw [begins]; rfl)
  case classWord => exact agrees.classStatement here (by rw [begins]; rfl)
  case constWord | letWord => exact agrees.declaration here (by rw [begins]; rfl)
  case ifWord => exact agrees.conditional here (by rw [begins]; rfl)
  case tryWord => exact agrees.attempt here (by rw [begins]; rfl)
  case returnWord => exact agrees.returning here (by rw [begins]; rfl)
  case leftBrace => exact (agrees.blockStatement here).imp id P.finish
  all_goals exact agrees.expressionStatement here

theorem nest (agrees : g.Agrees v) (room : Nat) : (g.nest room).Agrees v where
  statement := agrees.anyStatement
  expression min here := agrees.chain room min here

end Agrees

/-- Every grammar built by levels agrees. -/
theorem agrees_ofRoom (v : View) (room : Nat) : (ofRoom room).Agrees v := by
  induction room with
  | zero =>
      have deep : ∀ {α γ : Type} {f g : α → γ} {s : Stage} {P : Pairing v} {k : Nat} {c d : Cursor},
          P.rel ⟨true, k, false⟩ c d → Agree P f g s (exhausted c) (exhausted d) := by
        intro α γ f g s P k c d here
        exact .error (by simp [View.Errors, ParseError.relabel, Cursor.span, (P.peek here).span]) here
      exact ⟨deep, fun _ => deep⟩
  | succ room ih => exact ih.nest room

end Grammar

end TwoScript
