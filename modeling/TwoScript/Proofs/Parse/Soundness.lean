import TwoScript.Proofs.Parse.Source
import TwoScript.Proofs.Parse.Success
import TwoScript.Proofs.Tree.Formed

/-!
# What was read

A grammar is sound if the trees it reads are written with the tokens it took and are
grammatical at every node. One level on top of a sound grammar is sound, so every
grammar of a program is.
-/

namespace TwoScript

open TwoScript.Parser

/-- The expression was read from one cursor to the other, which took the shapes `ts`. -/
structure Expr.ReadFrom (e : Expr) (c : Cursor) (ts : List Shape) (c' : Cursor) : Prop where
  taken : c.Takes ts c'
  yields : e.Yields ts
  every : e.Every grammatical

/-- The grammar reads only what is written, and leaves off where an operator that it may
not take comes next. -/
structure Grammar.Sound (g : Grammar) : Prop where
  statement {c c' : Cursor} {s : Statement} : c.Lexed → g.statement c = .ok s c' →
    c.Advances c' ∧ s.Every grammatical ∧ (c.peek.kind = .ifWord → s.isConditional = true)
  expression {c c' : Cursor} {min : Precedence} {e : Expr} : c.Lexed → min < .postfixed →
    g.expression min c = .ok e c' →
      ∃ ts, e.ReadFrom c ts c' ∧ min < e.head ∧ Precedence.ofKind c'.peek.kind ≤ min

theorem Expr.ReadFrom.advances {e : Expr} {c c' : Cursor} {ts : List Shape}
    (h : e.ReadFrom c ts c') : c.Advances c' :=
  ⟨ts, h.yields.ne_nil, h.taken⟩

/-! ## Loops -/

/-- What a step of a loop gives, all steps together give. -/
theorem Cursor.Lexed.many {α : Type} {step : Parser (Option α)} {P : α → Prop}
    {c c' : Cursor} {as : List α} (lexed : c.Lexed)
    (more : ∀ {c c' : Cursor} {a : α}, c.Lexed → step c = .ok (some a) c' →
      c.Advances c' ∧ P a)
    (stops : ∀ {c c' : Cursor}, step c = .ok none c' → c = c')
    (h : many step c = .ok as c') :
    Repeats step c as c' ∧ c.Reaches c' ∧ ∀ a ∈ as, P a := by
  have loop := repeats_of_many_ok Cursor.Lexed
    (fun _ _ _ lexed h => ⟨(more lexed h).1.reaches.lexed lexed, (more lexed h).1.length_lt⟩)
    lexed h
  refine ⟨loop, ?_⟩
  induction loop with
  | nil stop =>
      cases stops stop
      exact ⟨.refl _, by simp⟩
  | cons first _ rest ih =>
      obtain ⟨further, holds⟩ := more lexed first
      obtain ⟨reaches, all⟩ := ih (further.reaches.lexed lexed) rest.many_ok
      exact ⟨further.reaches.trans reaches, by simpa using ⟨holds, all⟩⟩

section

variable {α : Type} {item : Parser α} {P : α → Prop} {c c' : Cursor} {as : List α}

theorem Cursor.Lexed.items (lexed : c.Lexed)
    (reads : ∀ {c c' : Cursor} {a : α}, c.Lexed → item c = .ok a c' → c.Advances c' ∧ P a)
    (h : items item c = .ok as c') : c.Reaches c' ∧ ∀ a ∈ as, P a := by
  refine (lexed.many ?_ ?_ h).2
  · intro c c' a lexed h
    rcases itemBeforeBrace_ok.mp h with ⟨_, none, _⟩ | ⟨_, _, b, run, same⟩
    · cases none
    · cases same
      exact reads lexed run
  · intro c c' h
    rcases itemBeforeBrace_ok.mp h with ⟨_, _, same⟩ | ⟨_, _, b, _, some⟩
    · exact same
    · cases some

theorem Cursor.Lexed.commas (lexed : c.Lexed)
    (reads : ∀ {c c' : Cursor} {a : α}, c.Lexed → item c = .ok a c' → c.Advances c' ∧ P a)
    (h : Parser.many (optionally .comma item) c = .ok as c') :
    Repeats (optionally .comma item) c as c' ∧ c.Reaches c' ∧ ∀ a ∈ as, P a := by
  refine lexed.many ?_ ?_ h
  · intro c c' a lexed h
    rcases optionally_ok.mp h with ⟨comma, b, run, same⟩ | ⟨_, none, _⟩
    · cases same
      obtain ⟨further, holds⟩ := reads lexed.next run
      exact ⟨(Cursor.advances_next comma (by decide)).trans further.reaches, holds⟩
    · cases none
  · intro c c' h
    rcases optionally_ok.mp h with ⟨_, b, _, some⟩ | ⟨_, _, same⟩
    · cases some
    · exact same

theorem Cursor.Lexed.separated {close : Kind} (lexed : c.Lexed)
    (reads : ∀ {c c' : Cursor} {a : α}, c.Lexed → item c = .ok a c' → c.Advances c' ∧ P a)
    (h : separated close item c = .ok as c') : c.Reaches c' ∧ ∀ a ∈ as, P a := by
  rcases separated_ok.mp h with ⟨_, rfl, rfl⟩ | ⟨_, first, c₁, run, rest, loop, rfl⟩
  · exact ⟨.refl _, by simp⟩
  · obtain ⟨further, holds⟩ := reads lexed run
    obtain ⟨_, reaches, all⟩ := (further.reaches.lexed lexed).commas reads loop
    exact ⟨further.reaches.trans reaches, by simpa using ⟨holds, all⟩⟩

end

namespace Grammar

/-- The operand was read, and no operator that would take it apart comes next. -/
def ReadsOperand (e : Expr) (c c' : Cursor) : Prop :=
  ∃ ts, e.ReadFrom c ts c' ∧ e.head = .postfixed ∧ Precedence.ofKind c'.peek.kind ≤ e.tail

/-! ## Primary expressions -/

theorem literal_sound {c c' : Cursor} {e : Expr} (lexed : c.Lexed)
    (begins : c.peek.shape.isLiteral = true) (h : literal c = .ok e c') :
    ReadsOperand e c c' := by
  obtain ⟨value, found, rfl, rfl⟩ := literal_ok.mp h
  have inner : c.peek.kind ≠ .endOfFile := by
    intro ends
    simp [Shape.isLiteral, ends] at begins
  have written : value.Written := by
    cases value with
    | number x => exact (lexed.peek inner).written found
    | _ => trivial
  exact ⟨[c.peek.shape], ⟨Cursor.takes_next inner, ⟨_, rfl, begins, found⟩, trivial, written⟩, rfl,
    Precedence.le_postfixed _⟩

theorem ident_sound {c c' : Cursor} {e : Expr} (lexed : c.Lexed)
    (begins : c.peek.kind = .identifier) (h : ident c = .ok e c') : ReadsOperand e c c' := by
  obtain ⟨rfl, rfl⟩ := ident_ok.mp h
  exact ⟨[c.peek.shape], ⟨Cursor.takes_next (by simp [begins]), ⟨_, rfl, begins, rfl⟩, trivial,
    lexed.isName begins⟩, rfl, Precedence.le_postfixed _⟩

namespace Sound

variable {g : Grammar} {c c' : Cursor} {e : Expr}

theorem group (sound : g.Sound) (lexed : c.Lexed) (begins : c.peek.kind = .leftParen)
    (h : g.group c = .ok e c') : ReadsOperand e c c' := by
  obtain ⟨inner, c₁, run, close, rfl, rfl⟩ := group_ok.mp h
  obtain ⟨ts, read, _⟩ := sound.expression lexed.next (by decide) run
  have first := Cursor.takes_next (c := c) (by simp [begins])
  have last := Cursor.takes_next (c := c₁) (by simp [close])
  refine ⟨_, ⟨first.trans (read.taken.trans last), ?_, ⟨trivial, trivial⟩, read.every⟩, rfl,
    Precedence.le_postfixed _⟩
  exact ⟨c.peek.shape, ts, c₁.peek.shape, rfl, begins, read.yields, close⟩

theorem unary (sound : g.Sound) {op : UnaryOp} (lexed : c.Lexed)
    (begins : UnaryOp.ofKind? c.peek.kind = some op) (h : g.unary op c = .ok e c') :
    ReadsOperand e c c' := by
  obtain ⟨operand, c₁, run, rfl, rfl⟩ := unary_ok.mp h
  obtain ⟨ts, read, tighter, stops⟩ := sound.expression lexed.next (by decide) run
  have inner : c.peek.kind ≠ .endOfFile := by
    intro ends
    simp [ends, UnaryOp.ofKind?] at begins
  refine ⟨_, ⟨(Cursor.takes_next inner).trans read.taken, ?_, ⟨?_, trivial⟩, read.every⟩, rfl,
    stops⟩
  · exact ⟨c.peek.shape, ts, rfl, begins, read.yields⟩
  · exact Expr.laddered_unary.mpr tighter

theorem await (sound : g.Sound) (lexed : c.Lexed) (begins : c.peek.kind = .awaitWord)
    (h : g.await c = .ok e c') : ReadsOperand e c c' := by
  obtain ⟨operand, c₁, run, rfl, rfl⟩ := await_ok.mp h
  obtain ⟨ts, read, tighter, stops⟩ := sound.expression lexed.next (by decide) run
  have first := Cursor.takes_next (c := c) (by simp [begins])
  refine ⟨_, ⟨first.trans read.taken, ?_, ⟨?_, trivial⟩, read.every⟩, rfl, stops⟩
  · exact ⟨c.peek.shape, ts, rfl, begins, read.yields⟩
  · exact Expr.laddered_await.mpr tighter

/-! ## Blocks -/

theorem block (sound : g.Sound) {body : List Statement} (lexed : c.Lexed)
    (h : g.block c = .ok body c') : c.Advances c' ∧ bodyEvery grammatical body := by
  obtain ⟨opens, ss, c₁, run, closes, rfl, rfl⟩ := block_ok.mp h
  obtain ⟨reaches, all⟩ := lexed.next.items
    (fun lexed h => ⟨(sound.statement lexed h).1, (sound.statement lexed h).2.1⟩) run
  refine ⟨?_, bodyEvery_iff.mpr all⟩
  exact (Cursor.advances_next opens (by decide)).trans
    (reaches.trans (Cursor.advances_next closes (by decide)).reaches)

theorem blockStatement (sound : g.Sound) {s : Statement} (lexed : c.Lexed)
    (h : g.blockStatement c = .ok s c') :
    c.Advances c' ∧ s.Every grammatical ∧ s.isBlock = true := by
  obtain ⟨body, c₁, run, rfl, rfl⟩ := blockStatement_ok.mp h
  obtain ⟨further, all⟩ := sound.block lexed run
  exact ⟨further, ⟨trivial, all⟩, rfl⟩

/-! ## Selections -/

theorem pattern_sound (lexed : c.Lexed) (h : pattern c = .ok e c') :
    c.Advances c' ∧ e.IsPattern := by
  rcases pattern_ok.mp h with ⟨minus, h⟩ | ⟨begins, h⟩
  · obtain ⟨number, h⟩ := negatedNumber_ok.mp h
    obtain ⟨x, found, rfl, rfl⟩ := negatedLiteral_ok.mp h
    refine ⟨(Cursor.advances_next minus (by decide)).trans
      (Cursor.advances_next number (by decide)).reaches, .inr ⟨x, ?_, rfl⟩⟩
    exact (lexed.next.peek (by simp [number])).written found
  · obtain ⟨ts, read, _⟩ := literal_sound lexed (Shape.isLiteral_iff.mpr begins) h
    refine ⟨read.advances, ?_⟩
    obtain ⟨value, _, rfl, rfl⟩ := literal_ok.mp h
    cases value with
    | number x => exact .inl read.every.2
    | _ => trivial

theorem arm (sound : g.Sound) {a : Arm} (lexed : c.Lexed) (h : g.arm c = .ok a c') :
    c.Advances c' ∧ (∀ p, a.pattern = some p → p.IsPattern) ∧ a.body.Every grammatical := by
  obtain ⟨pattern, c₁, head, arrow, body, c₂, run, u, c₃, ended, rfl, rfl⟩ := arm_ok.mp h
  have pattern : c.Advances c₁ ∧ ∀ p, pattern = some p → p.IsPattern := by
    rcases armPattern_ok.mp head with ⟨word, rfl, rfl⟩ | ⟨_, p, run, rfl⟩
    · exact ⟨Cursor.advances_next word (by decide), by simp⟩
    · obtain ⟨further, pattern⟩ := pattern_sound lexed run
      exact ⟨further, by simpa using pattern⟩
  have lexed₁ := pattern.1.reaches.lexed lexed
  have body : c₁.next.Advances c₂ ∧ body.Every grammatical := by
    rcases armBody_ok.mp run with ⟨_, run⟩ | ⟨_, run⟩
    · obtain ⟨further, every, _⟩ := sound.blockStatement lexed₁.next run
      exact ⟨further, every⟩
    · obtain ⟨value, inside, rfl⟩ := armValue_ok.mp run
      obtain ⟨ts, read, _⟩ := sound.expression lexed₁.next (by decide) inside
      exact ⟨read.advances, trivial, read.every⟩
  have ended : c₂.Reaches c₃ := by
    rw [← armEnd_ok.mp ended]
    split
    · rename_i mark
      rcases mark with mark | mark <;> exact (Cursor.advances_next mark (by decide)).reaches
    · exact .refl _
  refine ⟨?_, pattern.2, body.2⟩
  exact pattern.1.trans ((Cursor.advances_next arrow (by decide)).reaches.trans
    (body.1.reaches.trans ended))

theorem selection (sound : g.Sound) (lexed : c.Lexed) (begins : c.peek.kind = .matchWord)
    (h : g.selection c = .ok e c') : ReadsOperand e c c' := by
  obtain ⟨subject, c₁, run, opens, arms, c₂, loop, closes, rfl, rfl⟩ := selection_ok.mp h
  obtain ⟨ts, read, _⟩ := sound.expression lexed.next (by decide) run
  have lexed₁ := read.taken.lexed lexed.next
  obtain ⟨⟨us, taken⟩, all⟩ := lexed₁.next.items sound.arm loop
  have first := Cursor.takes_next (c := c) (by simp [begins])
  have brace := Cursor.takes_next (c := c₁) (by simp [opens])
  have last := Cursor.takes_next (c := c₂) (by simp [closes])
  have inside := read.taken.trans (brace.trans taken)
  refine ⟨_, ⟨first.trans (inside.trans last), ?_, ⟨trivial, trivial⟩, read.every.ungrouped,
    armsEvery_iff.mpr all⟩, rfl, Precedence.le_postfixed _⟩
  exact ⟨c.peek.shape, _, c₂.peek.shape, rfl, begins, trivial, closes⟩

/-! ## Templates -/

theorem interpolation (sound : g.Sound) {place : Place} {source : List Char}
    (h : g.interpolation place source = .ok e) :
    e.Yields (shapes source) ∧ e.Every grammatical := by
  obtain ⟨c', run, ended⟩ := interpolation_ok.mp h
  obtain ⟨ahead, _, lexed⟩ := Cursor.ofTokens_tokensFrom place source
  obtain ⟨ts, read, _⟩ := sound.expression lexed (by decide) run
  obtain ⟨tokens, whole, rfl⟩ := read.taken.ahead_eq
  rw [ended, List.append_nil] at whole
  rw [← ahead, whole]
  exact ⟨read.yields, read.every⟩

theorem parts (sound : g.Sound) {segments : List Segment} {parts : List Part}
    (h : segments.mapM g.part = .ok parts) :
    partsYield parts segments ∧ partsEvery grammatical parts := by
  induction segments generalizing parts with
  | nil =>
      cases h
      exact ⟨rfl, trivial⟩
  | cons segment segments ih =>
      obtain ⟨part, rest, head, tail, rfl⟩ := parts_ok_cons.mp h
      obtain ⟨yields, every⟩ := ih tail
      cases segment with
      | text chars =>
          cases head
          exact ⟨⟨chars, segments, rfl, rfl, yields⟩, every⟩
      | source place chars =>
          obtain ⟨e, run, rfl⟩ := part_source_ok.mp head
          obtain ⟨ye, ev⟩ := sound.interpolation run
          exact ⟨⟨place, chars, segments, rfl, ye, yields⟩, ev, every⟩

theorem template (sound : g.Sound) (begins : c.peek.kind = .template)
    (h : g.template c = .ok e c') : ReadsOperand e c c' := by
  obtain ⟨parts, run, rfl, rfl⟩ := template_ok.mp h
  obtain ⟨yields, every⟩ := sound.parts run
  refine ⟨[c.peek.shape], ⟨Cursor.takes_next (by simp [begins]), ⟨_, rfl, begins, ?_⟩,
    ⟨trivial, ?_⟩, every⟩, rfl, Precedence.le_postfixed _⟩
  · rw [← partsYield_bare, templateSegments_bare, partsYield_bare]
    exact yields
  · exact Part.apart_of_yields (segments_apart _ _ _ _) yields

/-! ## Operators -/

theorem operand (sound : g.Sound) (lexed : c.Lexed) (h : g.operand c = .ok e c') :
    ReadsOperand e c c' := by
  rcases operand_ok.mp h with ⟨begins, h⟩ | ⟨begins, h⟩ | ⟨begins, h⟩ | ⟨begins, h⟩ |
    ⟨begins, h⟩ | ⟨op, begins, h⟩ | ⟨begins, h⟩
  · exact literal_sound lexed begins h
  · exact sound.template begins h
  · exact ident_sound lexed begins h
  · exact sound.group lexed begins h
  · exact sound.selection lexed begins h
  · exact sound.unary lexed begins h
  · exact sound.await lexed begins h

/-- Arguments behind the first one, whose shapes follow its own. -/
theorem furtherArgs (sound : g.Sound) {args : List Expr} (lexed : c.Lexed)
    (h : Repeats (optionally .comma (g.expression .lowest)) c args c') :
    ∃ ts, c.Takes ts c' ∧
      ∀ first ls, first.Yields ls → argsYield (first :: args) (ls ++ ts) := by
  induction h with
  | nil stop =>
      rcases optionally_ok.mp stop with ⟨_, e, _, some⟩ | ⟨_, _, rfl⟩
      · cases some
      · refine ⟨[], rfl, fun first ls yields => ?_⟩
        rw [List.append_nil, argsYield]
        exact yields
  | @cons c c₁ c' arg args step _ _ ih =>
      rcases optionally_ok.mp step with ⟨comma, e, run, same⟩ | ⟨_, none, _⟩
      · cases same
        obtain ⟨us, read, _⟩ := sound.expression lexed.next (by decide) run
        obtain ⟨ts, taken, later⟩ := ih (read.taken.lexed lexed.next)
        have mark := Cursor.takes_next (c := c) (by simp [comma])
        refine ⟨_, mark.trans (read.taken.trans taken), fun first ls yields => ?_⟩
        exact ⟨ls, c.peek.shape, us ++ ts, rfl, yields, comma, later arg us read.yields⟩
      · cases none

theorem args (sound : g.Sound) {args : List Expr} (lexed : c.Lexed)
    (h : separated .rightParen (g.expression .lowest) c = .ok args c') :
    ∃ ts, c.Takes ts c' ∧ argsYield args ts ∧ argsEvery grammatical args := by
  have reads : ∀ {c c' : Cursor} {e : Expr}, c.Lexed → g.expression .lowest c = .ok e c' →
      c.Advances c' ∧ e.Every grammatical := by
    intro c c' e lexed h
    obtain ⟨ts, read, _⟩ := sound.expression lexed (by decide) h
    exact ⟨read.advances, read.every⟩
  rcases separated_ok.mp h with ⟨_, rfl, rfl⟩ | ⟨_, first, c₁, run, rest, loop, rfl⟩
  · exact ⟨[], rfl, rfl, trivial⟩
  · obtain ⟨us, read, _⟩ := sound.expression lexed (by decide) run
    have lexed₁ := read.taken.lexed lexed
    obtain ⟨repeats, _, all⟩ := lexed₁.commas reads loop
    obtain ⟨ts, taken, yields⟩ := sound.furtherArgs lexed₁ repeats
    exact ⟨us ++ ts, read.taken.trans taken, yields first us read.yields, read.every,
      argsEvery_iff.mpr all⟩

/-- The chain up to here was read from `c`, binds tighter than `min` and may be followed
by the next operator. -/
def Chained (min : Precedence) (c : Cursor) (chain : Chain) (c' : Cursor) : Prop :=
  ∃ ts, chain.expr.ReadFrom c ts c' ∧ min < chain.expr.head ∧
    Precedence.ofKind c'.peek.kind ≤ chain.expr.tail

/-- A continuation keeps a chain a chain. -/
theorem continuation (sound : g.Sound) {min : Precedence} {start c c' : Cursor} {chain : Chain}
    {e : Expr} (lexed : c.Lexed) (loose : min < .postfixed)
    (chained : Chained min start chain c) (tighter : ¬Precedence.ofKind c.peek.kind ≤ min)
    (h : g.continuation chain.expr c = .ok e c') (height : Nat) :
    c.Advances c' ∧ Chained min start ⟨e, height⟩ c' := by
  obtain ⟨ls, left, _, tight⟩ := chained
  have tighter := Precedence.not_le.mp tighter
  rcases continuation_ok.mp h with ⟨mark, h⟩ | ⟨mark, h⟩ | ⟨op, mark, h⟩ | ⟨op, mark, h⟩
  · obtain ⟨args, c₁, run, close, rfl, rfl⟩ := callOf_ok.mp h
    obtain ⟨ts, taken, yields, every⟩ := sound.args lexed.next run
    have first := Cursor.takes_next (c := c) (by simp [mark])
    have last := Cursor.takes_next (c := c₁) (by simp [close])
    have behind := first.trans (taken.trans last)
    rw [mark] at tight
    refine ⟨⟨_, by simp, behind⟩, _, ⟨left.taken.trans behind, ?_, ⟨?_, trivial⟩, left.every,
      every⟩, loose, Precedence.le_postfixed _⟩
    · exact ⟨ls, _, rfl, left.yields, c.peek.shape, ts, c₁.peek.shape, rfl, mark, yields, close⟩
    · exact Expr.laddered_call.mpr tight
  · obtain ⟨name, c₁, run, rfl, rfl⟩ := memberOf_ok.mp h
    obtain ⟨isProperty, rfl, rfl⟩ := property_ok.mp run
    have property : c.next.peek.shape.isProperty = true := Shape.isProperty_iff.mpr isProperty
    have behind := (Cursor.takes_next (c := c) (by simp [mark])).trans
      (Cursor.takes_next (lexed.next.ne_end_of_property property))
    rw [mark] at tight
    refine ⟨⟨_, by simp, behind⟩, _, ⟨left.taken.trans behind, ?_, ⟨?_, ?_⟩, left.every⟩, loose,
      Precedence.le_postfixed _⟩
    · exact ⟨ls, c.peek.shape, c.next.peek.shape, rfl, left.yields, mark, property, rfl⟩
    · exact Expr.laddered_member.mpr tight
    · rcases isProperty with name | word
      · exact isWord_of_isName (lexed.next.isName name)
      · exact isWord_of_keyword word
  · obtain ⟨target, value, c₁, run, rfl, rfl⟩ := assignmentTo_ok.mp h
    obtain ⟨ts, right, _, stops⟩ := sound.expression lexed.next (by decide) run
    have inner : c.peek.kind ≠ .endOfFile := by
      intro ends
      simp [ends, AssignOp.ofKind?] at mark
    have behind := (Cursor.takes_next inner).trans right.taken
    rw [AssignOp.precedence_of_kind mark] at tighter
    refine ⟨⟨_, by simp, behind⟩, _, ⟨left.taken.trans behind, ?_, ⟨target, trivial⟩, left.every,
      right.every⟩, tighter, stops⟩
    exact ⟨ls, c.peek.shape, ts, rfl, left.yields, mark, right.yields⟩
  · obtain ⟨value, c₁, run, rfl, rfl⟩ := operationOn_ok.mp h
    rw [BinaryOp.precedence_of_kind mark] at tight tighter run
    have looser : op.precedence < .postfixed := by cases op <;> decide
    obtain ⟨ts, right, tightest, stops⟩ := sound.expression lexed.next looser run
    have inner : c.peek.kind ≠ .endOfFile := by
      intro ends
      simp [ends, BinaryOp.ofKind?] at mark
    have behind := (Cursor.takes_next inner).trans right.taken
    refine ⟨⟨_, by simp, behind⟩, _, ⟨left.taken.trans behind, ?_, ⟨?_, trivial⟩, left.every,
      right.every⟩, tighter, stops⟩
    · exact ⟨ls, c.peek.shape, ts, rfl, left.yields, mark, right.yields⟩
    · exact Expr.laddered_binary.mpr ⟨tight, tightest⟩

theorem chain (sound : g.Sound) {room : Nat} {min : Precedence} (lexed : c.Lexed)
    (loose : min < .postfixed) (h : g.chain room min c = .ok e c') :
    ∃ ts, e.ReadFrom c ts c' ∧ min < e.head ∧ Precedence.ofKind c'.peek.kind ≤ min := by
  obtain ⟨first, c₁, run, whole, c₂, loop, rfl, rfl⟩ := chain_ok.mp h
  obtain ⟨ts, read, head, stops⟩ := sound.operand lexed run
  have start : Chained min c ⟨first, first.height⟩ c₁ := ⟨ts, read, by rw [head]; exact loose, stops⟩
  have keeps : ∀ s c₁ s₁ c₂, Chained min c s c₁ → g.extend room min s c₁ = .ok (some s₁) c₂ →
      Chained min c s₁ c₂ ∧ c₂.ahead.length < c₁.ahead.length := by
    intro s c₁ s₁ c₂ chained step
    have ⟨us, read, _⟩ := chained
    rcases extend_ok.mp step with ⟨_, none, _⟩ | ⟨tighter, e, run, _, same⟩
    · cases none
    · cases same
      obtain ⟨further, chained⟩ := sound.continuation (read.taken.lexed lexed) loose chained
        tighter run _
      exact ⟨chained, further.length_lt⟩
  have grows := grows_of_iterate_ok (Chained min c) keeps start loop
  obtain ⟨c₂', ⟨us, read, head, _⟩, stop⟩ :=
    grows.invariant (fun s c s₁ c₁ inv step => (keeps s c s₁ c₁ inv step).1) start
  rcases extend_ok.mp stop with ⟨looser, _, rfl⟩ | ⟨_, e, _, _, some⟩
  · exact ⟨us, read, head, looser⟩
  · cases some

end Sound

end Grammar

end TwoScript
