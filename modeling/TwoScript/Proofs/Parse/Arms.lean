import Mathlib.Data.List.Chain
import Mathlib.Data.List.Forall2
import TwoScript.Proofs.Parse.Coverage
import TwoScript.Proofs.Parse.Interpolation
import TwoScript.Proofs.Parse.Lookahead

/-!
# Arms and what stands between them

A selection can be put together from parts that were read alone: its subject, and for every
arm a pattern and a body. Behind an arm there may be a comma, a semicolon or nothing, each
time anew; only a minus behind a value would continue it. However the parts are separated,
they are read as one selection with these arms.
-/

namespace TwoScript

open TwoScript.Parser

/-! ## Parts read alone and among others -/

def View.bare : View where
  left := .bare
  right := .bare
  text := id
  places _ _ := True
  types _ _ := rfl
  merge _ _ := rfl
  stretch _ _ := rfl
  inside _ := trivial
  after _ _ := trivial
  spans _ _ := rfl

theorem View.bare_similar {ts us : List Token} (same : ts.map Token.shape = us.map Token.shape)
    (afterDot : Bool) : View.bare.Similar afterDot ts us := by
  induction ts generalizing us afterDot with
  | nil =>
      obtain rfl : us = [] := by simpa using same.symm
      exact trivial
  | cons t ts ih =>
      cases us with
      | nil => cases same
      | cons u us =>
          obtain ⟨first, rest⟩ := List.cons.inj same
          exact ⟨View.tokens_of_shape first (fun _ => rfl) rfl,
            fun _ => congrArg Shape.text first, ih rest _⟩

section

variable {d : Cursor} {ts tail : List Token} {cs : List Char}

/-- The tokens of a text in front of others look like the text alone. -/
theorem exists_alone (ahead : d.ahead = ts ++ tail) (same : ts.map Token.shape = shapes cs) :
    ∃ m, Followed tail d.final m d ∧
      View.bare.Ahead (Cursor.ofTokens (tokensFrom .first cs)) m := by
  obtain ⟨shaped, final, _⟩ := Cursor.ofTokens_tokensFrom .first cs
  have inner : ∀ t ∈ ts, t.kind ≠ .endOfFile := by
    intro t member
    exact d.inner t (by rw [ahead]; exact List.mem_append_left _ member)
  refine ⟨⟨d.previous, ts, endToken .first, inner, rfl⟩, ⟨rfl, ahead, rfl, fun t member => ?_, rfl⟩,
    ⟨false, View.bare_similar (by rw [shaped, same]) false⟩, ?_, ?_⟩
  · apply lexed_of_mem_shapes
    rw [← same]
    exact List.mem_map_of_mem member
  · rw [final]
    exact View.tokens_of_shape rfl (fun _ => rfl) rfl
  · rw [final]
    exact .inl rfl

/-- What a reader has read of a text alone, it reads of the same tokens in front of
others. -/
theorem read_inside {α γ : Type} {p : Parser α} {f : α → γ} {a : α} {c' : Cursor}
    (agrees : ∀ {P : Pairing View.bare} {k : Nat} {c d : Cursor}, P.rel ⟨true, k, false⟩ c d →
      Agree P f f ⟨false, k, false⟩ (p c) (p d))
    (again : ∀ {b : α} {m m' : Cursor}, p m = .ok b m' → Followed tail d.final m d →
      Followed.Again tail d.final p b m' d)
    (ahead : d.ahead = ts ++ tail) (same : ts.map Token.shape = shapes cs)
    (run : p (Cursor.ofTokens (tokensFrom .first cs)) = .ok a c') (ended : c'.ahead = []) :
    ∃ b d', p d = .ok b d' ∧ d'.ahead = tail ∧ f b = f a := by
  obtain ⟨m, followed, alike⟩ := exists_alone ahead same
  have start : (Pairing.alike View.bare _).rel ⟨true, 0, false⟩ _ m := ⟨alike, .inr ⟨rfl, rfl⟩⟩
  rcases (agrees start).ends with ⟨a', b, c₁, m', left, right, equal, there⟩ |
    ⟨_, _, _, _, _, left, _⟩
  · rw [run] at left
    cases left
    have empty : m'.ahead = [] := by
      rw [← List.length_eq_zero_iff, there.1.length_eq, ended]
      rfl
    obtain ⟨d', read, behind⟩ := again right followed
    exact ⟨b, d', read, by rw [behind.ahead, empty, List.nil_append], equal.symm⟩
  · rw [run] at left
    cases left

end

/-- The tokens of a text that is read as an expression when it stands alone. -/
def ValueAlone (ts : List Token) (e : Expr) : Prop :=
  ∃ source c', ts.map Token.shape = shapes source.toList ∧
    (Cursor.ofTokens (tokenize source)).expression = .ok e c' ∧ c'.ahead = [] ∧ e.height ≤ 100

def BlockAlone (ts : List Token) (s : Statement) : Prop :=
  ∃ source, ts.map Token.shape = shapes source.toList ∧ parse source = ⟨[s], []⟩ ∧
    s.isBlock = true

/-- A brace does not begin an expression. -/
theorem Grammar.ne_brace_of_expression {room : Nat} {min : Precedence} {c c' : Cursor} {e : Expr}
    (run : (ofRoom room).expression min c = .ok e c') : c.peek.kind ≠ .leftBrace := by
  intro brace
  cases room with
  | zero => cases run
  | succ room =>
      obtain ⟨first, c₁, read, _⟩ := chain_ok.mp run
      simp [operand_ok, Shape.isLiteral_iff, brace, UnaryOp.ofKind?] at read

theorem ValueAlone.inside {ts tail : List Token} {e : Expr} {d : Cursor} (h : ValueAlone ts e)
    (ahead : d.ahead = ts ++ tail) (stops : Stops tail) :
    ∃ e' d', (Grammar.ofRoom 255).expression .lowest d = .ok e' d' ∧ d'.ahead = tail ∧
      e'.relabel .bare = e.relabel .bare := by
  obtain ⟨source, c', same, read, ended, low⟩ := h
  have room : e.levels < 255 := Nat.lt_of_le_of_lt e.levels_le (by omega)
  have lower := (Grammar.extends_ofRoom 255 maxNesting).expression read room
  exact read_inside ((Grammar.agrees_ofRoom View.bare 255).expression .lowest)
    (fun run => (Grammar.steady_ofRoom tail d.final 255).expression run fun _ => stops)
    ahead same lower ended

/-- A program that is one statement was read as this statement. -/
theorem statement_of_parse {source : String} {s : Statement} (h : parse source = ⟨[s], []⟩) :
    ∃ c', Grammar.full.statement (Cursor.ofTokens (tokenize source)) = .ok s c' ∧
      c'.ahead = [] := by
  have progress := Grammar.progresses_ofRoom maxNesting
  obtain ⟨ps, c', steps, program⟩ := programFrom_steps progress (Cursor.ofTokens (tokenize source))
  have whole : Program.ofSteps ps = ⟨[s], []⟩ := by
    rw [← h, parse, Program.ofTokens, Cursor.program, Grammar.full, program]
  cases steps with
  | finish => cases whole
  | step more run _ rest =>
      have read := statementOrFailure_read progress more run
      cases read with
      | failed => simp [Program.ofSteps] at whole
      | parsed run =>
          cases rest with
          | finish ended =>
              cases whole
              exact ⟨_, run, ended⟩
          | step => cases whole

/-- No other reader of statements gives a block. -/
theorem Grammar.blockStatement_of_anyStatement {g : Grammar} {c c' : Cursor} {s : Statement}
    (run : g.anyStatement c = .ok s c') (block : s.isBlock = true) :
    g.blockStatement c = .ok s c' := by
  rcases anyStatement_ok.mp run with ⟨_, read⟩ | ⟨_, read⟩ | ⟨_, read⟩ | ⟨_, read⟩ | ⟨_, read⟩ |
    ⟨_, read⟩ | ⟨_, read⟩ | ⟨_, read⟩ | ⟨_, read⟩
  · obtain ⟨_, _, _, rfl, _⟩ := functionStatement_ok.mp read
    cases block
  · obtain ⟨_, _, _, rfl, _⟩ := asyncStatement_ok.mp read
    cases block
  · obtain ⟨_, _, _, _, _, _, rfl, _⟩ := classStatement_ok.mp read
    cases block
  · obtain ⟨_, _, _, _, _, _, _, _, rfl, _⟩ := declaration_ok.mp read
    cases block
  · obtain ⟨_, _, _, _, _, _, _, _, _, rfl, _⟩ := conditional_ok.mp read
    cases block
  · obtain ⟨_, _, _, _, _, _, _, _, _, _, rfl, _⟩ := attempt_ok.mp read
    cases block
  · obtain ⟨_, _, _, _, rfl, _⟩ := returning_ok.mp read
    cases block
  · exact read
  · obtain ⟨_, _, _, ⟨_, rfl, _⟩ | ⟨_, _, rfl, _⟩⟩ := expressionStatement_ok.mp read
    all_goals cases block

theorem BlockAlone.inside {ts tail : List Token} {s : Statement} {d : Cursor}
    (h : BlockAlone ts s) (ahead : d.ahead = ts ++ tail) :
    ∃ s' d', (Grammar.ofRoom 255).blockStatement d = .ok s' d' ∧ d'.ahead = tail ∧
      s'.relabel .bare = s.relabel .bare := by
  obtain ⟨source, same, program, block⟩ := h
  obtain ⟨c', run, ended⟩ := statement_of_parse program
  exact read_inside (Grammar.agrees_ofRoom View.bare 255).blockStatement
    (fun run => (Grammar.steady_ofRoom tail d.final 255).blockStatement run) ahead same
    (Grammar.blockStatement_of_anyStatement run block) ended

/-! ## Arms -/

/-- A pattern as it is written: the word for any value, a literal, or a number behind a
minus. -/
inductive WrittenPattern where
  | any (word : Token)
  | literal (token : Token)
  | negated (minus number : Token)

namespace WrittenPattern

def tokens : WrittenPattern → List Token
  | any word => [word]
  | literal token => [token]
  | negated minus number => [minus, number]

def isNegated : WrittenPattern → Bool
  | negated _ _ => true
  | _ => false

inductive Reads : WrittenPattern → Option Expr → Prop
  | any {word : Token} (kind : word.kind = .defaultWord) : Reads (any word) none
  | literal {token : Token} {value : Literal} {span : Span} (kind : token.shape.isLiteral = true)
    (found : token.literal = some value) : Reads (literal token) (some (.literal span value))
  | negated {minus number : Token} {x : Number} {span : Span} (first : minus.kind = .minus)
    (second : number.kind = .number) (found : number.literal = some (.number x)) :
    Reads (negated minus number) (some (.literal span (.number x.negate)))

variable {w : WrittenPattern} {p : Option Expr} {tail : List Token} {d : Cursor}

/-- The token that begins a pattern ends what stands in front of it, but for a minus. -/
theorem Reads.begins (h : w.Reads p) :
    ∃ t ts, w.tokens = t :: ts ∧ t.kind ≠ .rightBrace ∧ t.kind ≠ .comma ∧ t.kind ≠ .semicolon ∧
      (w.isNegated = false → Precedence.ofKind t.kind = .lowest) := by
  cases h with
  | any kind => exact ⟨_, [], rfl, by simp [kind, Precedence.ofKind]⟩
  | literal kind =>
      refine ⟨_, [], rfl, ?_⟩
      rcases Shape.isLiteral_iff.mp kind with kind | kind | kind | kind | kind
      all_goals
        rw [Token.shape_kind] at kind
        simp [kind, Precedence.ofKind]
  | negated first => exact ⟨_, [_], rfl, by simp [first, isNegated]⟩

theorem Reads.inside (h : w.Reads p) (ahead : d.ahead = w.tokens ++ tail) :
    ∃ p' d', Grammar.armPattern d = .ok p' d' ∧ d'.ahead = tail ∧
      p'.map (Expr.relabel .bare) = p.map (Expr.relabel .bare) := by
  cases h with
  | any kind =>
      have first := Cursor.peek_of_cons ahead
      have word : d.peek.kind = .defaultWord := by rw [first, kind]
      refine ⟨none, d.next, Grammar.armPattern_ok.mpr (.inl ⟨word, rfl, rfl⟩), ?_, rfl⟩
      rw [Cursor.ahead_next, ahead]
      rfl
  | literal kind found =>
      have first := Cursor.peek_of_cons ahead
      have kinds := Shape.isLiteral_iff.mp kind
      have other : d.peek.kind ≠ .defaultWord := by
        rw [first]
        rcases kinds with kind | kind | kind | kind | kind
        all_goals
          rw [Token.shape_kind] at kind
          simp [kind]
      have read := Grammar.literal_ok.mpr ⟨_, by rw [first, found], rfl, rfl⟩
      have pattern := Grammar.pattern_ok.mpr (.inr ⟨by rw [first]; exact kinds, read⟩)
      refine ⟨_, d.next, Grammar.armPattern_ok.mpr (.inr ⟨other, _, pattern, rfl⟩), ?_, rfl⟩
      rw [Cursor.ahead_next, ahead]
      rfl
  | @negated m n x span minus number found =>
      have first := Cursor.peek_of_cons ahead
      have rest : d.next.ahead = n :: tail := by
        rw [Cursor.ahead_next, ahead]
        rfl
      have second := Cursor.peek_of_cons rest
      have read : Grammar.negatedLiteral d.span d.next = .ok _ d.next.next :=
        Grammar.negatedLiteral_ok.mpr ⟨x, by rw [second, found], rfl, rfl⟩
      have negated := Grammar.negatedNumber_ok.mpr ⟨by rw [second, number], read⟩
      have pattern := Grammar.pattern_ok.mpr (.inl ⟨by rw [first, minus], negated⟩)
      have other : d.peek.kind ≠ .defaultWord := by simp [first, minus]
      refine ⟨_, d.next.next, Grammar.armPattern_ok.mpr (.inr ⟨other, _, pattern, rfl⟩), ?_, rfl⟩
      rw [Cursor.ahead_next, rest]
      rfl

end WrittenPattern

inductive WrittenBody where
  | block (tokens : List Token)
  | value (tokens : List Token)

namespace WrittenBody

def tokens : WrittenBody → List Token
  | block ts => ts
  | value ts => ts

def isValue : WrittenBody → Bool
  | value _ => true
  | block _ => false

inductive Reads : WrittenBody → Statement → Prop
  | block {ts : List Token} {s : Statement} (alone : BlockAlone ts s) : Reads (block ts) s
  | value {ts : List Token} {e : Expr} {span : Span} (alone : ValueAlone ts e) :
    Reads (value ts) (.expression span e)

variable {w : WrittenBody} {s : Statement} {tail : List Token} {d : Cursor}

theorem Reads.inside (h : w.Reads s) (ahead : d.ahead = w.tokens ++ tail)
    (stops : w.isValue = true → Stops tail) :
    ∃ s' d', (Grammar.ofRoom 255).armBody d = .ok s' d' ∧ d'.ahead = tail ∧
      s'.relabel .bare = s.relabel .bare := by
  cases h with
  | block alone =>
      obtain ⟨s', d', read, behind, same⟩ := alone.inside ahead
      obtain ⟨body, c₁, inside, _⟩ := Grammar.blockStatement_ok.mp read
      have brace := (Grammar.block_ok.mp inside).1
      exact ⟨s', d', Grammar.armBody_ok.mpr (.inl ⟨brace, read⟩), behind, same⟩
  | value alone =>
      obtain ⟨e', d', read, behind, same⟩ := alone.inside ahead (stops rfl)
      have value := Grammar.armValue_ok.mpr ⟨e', read, rfl⟩
      have other := Grammar.ne_brace_of_expression read
      refine ⟨_, d', Grammar.armBody_ok.mpr (.inr ⟨other, value⟩), behind, ?_⟩
      simp only [Statement.relabel, same]
      rfl

end WrittenBody

/-- An arm as it is written, with the comma or semicolon behind it if there is one. -/
structure WrittenArm where
  pattern : WrittenPattern
  arrow : Token
  body : WrittenBody
  separator : Option Token

namespace WrittenArm

def tokens (w : WrittenArm) : List Token :=
  w.pattern.tokens ++ w.arrow :: (w.body.tokens ++ w.separator.toList)

structure Reads (w : WrittenArm) (a : Arm) : Prop where
  pattern : w.pattern.Reads a.pattern
  arrow : w.arrow.kind = .arrow
  body : w.body.Reads a.body
  separator : ∀ t ∈ w.separator, t.kind = .comma ∨ t.kind = .semicolon

/-- Something stands between a value and a minus. -/
def Apart (w w' : WrittenArm) : Prop :=
  w.separator = none → w.body.isValue = true → w'.pattern.isNegated = false

variable {w : WrittenArm} {a : Arm} {tail : List Token} {d : Cursor}

/-- Behind the body of an arm stands its separator, or what follows the arm. -/
theorem Reads.armEnd_inside (h : w.Reads a) (ahead : d.ahead = w.separator.toList ++ tail)
    (next : w.separator = none → ∀ t ∈ tail.head?, t.kind ≠ .comma ∧ t.kind ≠ .semicolon) :
    ∃ u d', Grammar.armEnd d = .ok u d' ∧ d'.ahead = tail := by
  cases separator : w.separator with
  | none =>
      rw [separator] at ahead
      refine ⟨(), d, Grammar.armEnd_ok.mpr (if_neg ?_), ahead⟩
      cases tail with
      | nil =>
          rw [Cursor.peek_kind_eq_end.mpr ahead]
          simp
      | cons t ts =>
          rw [Cursor.peek_of_cons ahead]
          simpa using next separator t rfl
  | some t =>
      rw [separator] at ahead
      have mark := h.separator t separator
      rw [← Cursor.peek_of_cons ahead] at mark
      refine ⟨(), d.next, Grammar.armEnd_ok.mpr (if_pos mark), ?_⟩
      rw [Cursor.ahead_next, ahead]
      rfl

/-- An arm among others is read as its parts are read alone. -/
theorem Reads.inside (h : w.Reads a) (ahead : d.ahead = w.tokens ++ tail)
    (next : w.separator = none → ∀ t ∈ tail.head?, t.kind ≠ .comma ∧ t.kind ≠ .semicolon ∧
      (w.body.isValue = true → Precedence.ofKind t.kind = .lowest)) :
    ∃ a' d', (Grammar.ofRoom 255).arm d = .ok a' d' ∧ d'.ahead = tail ∧
      a'.relabel .bare = a.relabel .bare := by
  rw [tokens, List.append_assoc, List.cons_append, List.append_assoc] at ahead
  obtain ⟨p, c₁, first, rest, pattern⟩ := h.pattern.inside ahead
  have arrow : c₁.peek.kind = .arrow := by rw [Cursor.peek_of_cons rest, h.arrow]
  have behind : c₁.next.ahead = w.body.tokens ++ (w.separator.toList ++ tail) := by
    rw [Cursor.ahead_next, rest, List.tail_cons]
  have stops : w.body.isValue = true → Stops (w.separator.toList ++ tail) := by
    intro value t found
    cases separator : w.separator with
    | none =>
        rw [separator] at found
        exact (next separator t found).2.2 value
    | some mark =>
        rw [separator] at found
        obtain rfl : mark = t := by simpa using found
        rcases h.separator mark separator with kind | kind <;> rw [kind] <;> rfl
  obtain ⟨s, c₂, read, rest, body⟩ := h.body.inside behind stops
  obtain ⟨u, c₃, ended, last⟩ := h.armEnd_inside rest fun none t found =>
    ⟨(next none t found).1, (next none t found).2.1⟩
  refine ⟨⟨p, s⟩, c₃, Grammar.arm_ok.mpr ⟨p, c₁, first, arrow, s, c₂, read, u, c₃, ended, rfl, rfl⟩,
    last, ?_⟩
  simp only [Arm.relabel, pattern, body]

end WrittenArm

/-! ## Selections -/

/-- Behind an arm begins the next one or stands the closing brace. -/
theorem WrittenArm.next_of_isChain {w : WrittenArm} {ws : List WrittenArm} {as : List Arm}
    (reads : List.Forall₂ WrittenArm.Reads ws as) (apart : (w :: ws).IsChain WrittenArm.Apart)
    {closes : Token} (brace : closes.kind = .rightBrace) (rest : List Token)
    (none : w.separator = none) :
    ∀ t ∈ (ws.flatMap tokens ++ closes :: rest).head?, t.kind ≠ .comma ∧ t.kind ≠ .semicolon ∧
      (w.body.isValue = true → Precedence.ofKind t.kind = .lowest) := by
  intro t found
  cases reads with
  | nil =>
      obtain rfl : closes = t := by simpa using found
      simp [brace, Precedence.ofKind]
  | cons second _ =>
      obtain ⟨first, ts, begins, _, comma, semicolon, lowest⟩ := second.pattern.begins
      obtain rfl : first = t := by simpa [tokens, begins] using found
      exact ⟨comma, semicolon, fun value => lowest ((List.isChain_cons_cons.mp apart).1 none value)⟩

/-- The arms of a selection up to its closing brace. -/
theorem repeats_of_arms {ws : List WrittenArm} {as : List Arm}
    (reads : List.Forall₂ WrittenArm.Reads ws as) (apart : ws.IsChain WrittenArm.Apart)
    {closes : Token} (brace : closes.kind = .rightBrace) {rest : List Token} {d : Cursor}
    (ahead : d.ahead = ws.flatMap WrittenArm.tokens ++ closes :: rest) :
    ∃ as' d', Repeats (itemBeforeBrace (Grammar.ofRoom 255).arm) d as' d' ∧
      d'.ahead = closes :: rest ∧ as'.map (Arm.relabel .bare) = as.map (Arm.relabel .bare) := by
  induction reads generalizing d with
  | nil =>
      have closed : d.peek.kind = .rightBrace := by rw [Cursor.peek_of_cons ahead, brace]
      exact ⟨[], d, .nil (itemBeforeBrace_ok.mpr (.inl ⟨.inl closed, rfl, rfl⟩)), ahead, rfl⟩
  | @cons w a ws as first others ih =>
      rw [List.flatMap_cons, List.append_assoc] at ahead
      obtain ⟨t, ts, begins, notClosing, _⟩ := first.pattern.begins
      obtain ⟨us, begun⟩ : ∃ us, d.ahead = t :: us := by
        rw [ahead, WrittenArm.tokens, begins]
        exact ⟨_, rfl⟩
      have inner : d.peek.kind ≠ .rightBrace ∧ d.peek.kind ≠ .endOfFile := by
        rw [Cursor.peek_of_cons begun]
        exact ⟨notClosing, d.inner t (by rw [begun]; exact List.mem_cons_self)⟩
      obtain ⟨a', d₁, read, behind, same⟩ := first.inside ahead
        (WrittenArm.next_of_isChain others apart brace rest)
      obtain ⟨as', d', loop, last, all⟩ := ih (List.IsChain.tail apart) behind
      have item := itemBeforeBrace_ok.mpr (.inr ⟨inner.1, inner.2, a', read, rfl⟩)
      have positive : 0 < w.tokens.length := by
        rw [WrittenArm.tokens, begins]
        exact Nat.succ_pos _
      have shorter : d₁.ahead.length < d.ahead.length := by
        rw [behind, ahead, @List.length_append _ w.tokens]
        omega
      refine ⟨a' :: as', d', .cons item shorter loop, last, ?_⟩
      rw [List.map_cons, List.map_cons, same, all]

/-- A selection that is put together from parts, each of which is read when it stands alone,
is read as one selection with these parts, whatever stands between its arms. -/
theorem selection_of_parts {c : Cursor} {word opens closes : Token} {subject : List Token}
    {ws : List WrittenArm} {e : Expr} {as : List Arm} (first : word.kind = .matchWord)
    (opening : opens.kind = .leftBrace) (closing : closes.kind = .rightBrace)
    (ahead : c.ahead = word :: (subject ++ opens :: (ws.flatMap WrittenArm.tokens ++ [closes])))
    (alone : ValueAlone subject e) (reads : List.Forall₂ WrittenArm.Reads ws as)
    (apart : ws.IsChain WrittenArm.Apart) :
    ∃ span e' as' c', c.expression = .ok (.select span e' as') c' ∧ c'.ahead = [] ∧
      e'.relabel .bare = e.ungrouped.relabel .bare ∧
      as'.map (Arm.relabel .bare) = as.map (Arm.relabel .bare) := by
  have begins : c.peek.kind = .matchWord := by rw [Cursor.peek_of_cons ahead, first]
  have rest : c.next.ahead = subject ++ opens :: (ws.flatMap WrittenArm.tokens ++ [closes]) := by
    rw [Cursor.ahead_next, ahead, List.tail_cons]
  have stops : Stops (opens :: (ws.flatMap WrittenArm.tokens ++ [closes])) := by
    intro t found
    obtain rfl : opens = t := by simpa using found
    rw [opening]
    rfl
  obtain ⟨e', c₁, read, rest, value⟩ := alone.inside rest stops
  have brace : c₁.peek.kind = .leftBrace := by rw [Cursor.peek_of_cons rest, opening]
  have behind : c₁.next.ahead = ws.flatMap WrittenArm.tokens ++ [closes] := by
    rw [Cursor.ahead_next, rest, List.tail_cons]
  obtain ⟨as', c₂, loop, rest, arms⟩ := repeats_of_arms reads apart closing behind
  have last : c₂.peek.kind = .rightBrace := by rw [Cursor.peek_of_cons rest, closing]
  have ended : c₂.next.ahead = [] := by rw [Cursor.ahead_next, rest, List.tail_cons]
  have selection := Grammar.selection_ok.mpr
    ⟨e', c₁, read, brace, as', c₂, loop.many_ok, last, rfl, rfl⟩
  have operand := Grammar.operand_ok.mpr
    (.inr (.inr (.inr (.inr (.inl ⟨begins, selection⟩)))))
  refine ⟨_, e'.ungrouped, as', _, Grammar.chain_of_operand operand ended, ended, ?_, arms⟩
  rw [← Expr.ungrouped_relabel, value, Expr.ungrouped_relabel]

def unplaced (kind : Kind) (text : String) (literal : Option Literal := none) : Token :=
  ⟨kind, text, default, literal⟩

/-- Arms with a comma between a value and a block, and nothing between the block and a
minus. -/
def mixedArms : List WrittenArm :=
  [⟨.literal (unplaced .trueWord "true" (some (.boolean true))), unplaced .arrow "->",
    .value [unplaced .identifier "a"], some (unplaced .comma ",")⟩,
   ⟨.any (unplaced .defaultWord "default"), unplaced .arrow "->",
    .block [unplaced .leftBrace "\x7b", unplaced .rightBrace "\x7d"], none⟩,
   ⟨.negated (unplaced .minus "-") (unplaced .number "0" (some (.number (.ofDigits ['0'] [])))),
    unplaced .arrow "->", .value [unplaced .identifier "b"], none⟩]

def mixedSelection : List Token :=
  unplaced .matchWord "match" ::
    ([unplaced .leftParen "(", unplaced .identifier "x", unplaced .rightParen ")"] ++
      unplaced .leftBrace "\x7b" :: (mixedArms.flatMap WrittenArm.tokens ++
        [unplaced .rightBrace "\x7d"]))

theorem selection_of_parts_mixed :
    ∃ span e' as' c',
      (Cursor.ofTokens mixedSelection).expression = .ok (.select span e' as') c' ∧
      c'.ahead = [] ∧ e'.relabel .bare = .ident default "x" ∧ as'.map (Arm.relabel .bare) =
        [⟨some (.literal default (.boolean true)), .expression default (.ident default "a")⟩,
         ⟨none, .block default []⟩,
         ⟨some (.literal default (.number (Number.ofDigits ['0'] []).negate)),
          .expression default (.ident default "b")⟩] := by
  have subject : ValueAlone
      [unplaced .leftParen "(", unplaced .identifier "x", unplaced .rightParen ")"]
      (.group ⟨0, 3, 1⟩ (.ident ⟨1, 2, 1⟩ "x")) :=
    ⟨"(x)", ⟨some ⟨.rightParen, ")", ⟨2, 3, 1⟩, none⟩, [], ⟨.endOfFile, "", ⟨3, 3, 1⟩, none⟩,
      by simp, rfl⟩, by with_unfolding_all rfl, by with_unfolding_all rfl, rfl, by decide⟩
  have left : ValueAlone [unplaced .identifier "a"] (.ident ⟨0, 1, 1⟩ "a") :=
    ⟨"a", ⟨some ⟨.identifier, "a", ⟨0, 1, 1⟩, none⟩, [], ⟨.endOfFile, "", ⟨1, 1, 1⟩, none⟩,
      by simp, rfl⟩, by with_unfolding_all rfl, by with_unfolding_all rfl, rfl, by decide⟩
  have right : ValueAlone [unplaced .identifier "b"] (.ident ⟨0, 1, 1⟩ "b") :=
    ⟨"b", ⟨some ⟨.identifier, "b", ⟨0, 1, 1⟩, none⟩, [], ⟨.endOfFile, "", ⟨1, 1, 1⟩, none⟩,
      by simp, rfl⟩, by with_unfolding_all rfl, by with_unfolding_all rfl, rfl, by decide⟩
  have middle : BlockAlone [unplaced .leftBrace "\x7b", unplaced .rightBrace "\x7d"]
      (.block ⟨0, 2, 1⟩ []) := ⟨"\x7b\x7d", by with_unfolding_all rfl, by with_unfolding_all rfl, rfl⟩
  have reads : List.Forall₂ WrittenArm.Reads mixedArms
      [⟨some (.literal default (.boolean true)), .expression default (.ident ⟨0, 1, 1⟩ "a")⟩,
       ⟨none, .block ⟨0, 2, 1⟩ []⟩,
       ⟨some (.literal default (.number (Number.ofDigits ['0'] []).negate)),
        .expression default (.ident ⟨0, 1, 1⟩ "b")⟩] :=
    .cons ⟨.literal rfl rfl, rfl, .value left, by simp [unplaced]⟩
      (.cons ⟨.any rfl, rfl, .block middle, by simp⟩
        (.cons ⟨.negated rfl rfl rfl, rfl, .value right, by simp⟩ .nil))
  have apart : mixedArms.IsChain WrittenArm.Apart := by
    simp [mixedArms, WrittenArm.Apart, WrittenBody.isValue]
  have ahead : (Cursor.ofTokens mixedSelection).ahead = mixedSelection := rfl
  exact selection_of_parts rfl rfl rfl ahead subject reads apart

end TwoScript
