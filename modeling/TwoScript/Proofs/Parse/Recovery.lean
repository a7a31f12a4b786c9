import TwoScript.Proofs.Parse.Alike
import TwoScript.Proofs.Parse.SoundStatement

/-!
# Errors stay where they are

Two programs one behind the other, the first with balanced braces and a semicolon at
its end, are read as each of them alone: whatever fails in the first one leaves the
second as it is.
-/

namespace TwoScript

/-! ## The first program -/

theorem Span.stretch_shift (a b : Span) (bytes lines : Nat) :
    { a.shift bytes lines with
      stop := max (b.shift bytes lines).stop (a.shift bytes lines).start } =
        ({ a with stop := max b.stop a.start } : Span).shift bytes lines := by
  simp only [shift, mk.injEq, and_true, true_and]
  omega

theorem Place.shift_inside (a : Span) (bytes lines : Nat) :
    (⟨(a.shift bytes lines).start + 1, (a.shift bytes lines).line⟩ : Place) =
      Place.shift bytes lines ⟨a.start + 1, a.line⟩ := by
  simp only [Span.shift, shift, mk.injEq, and_true]
  omega

/-- What is compared when the second reading lies `bytes` bytes and `lines` lines behind
the first. -/
def View.shift (bytes lines : Nat) : View where
  left := .shift bytes lines
  right := .same
  text := id
  places p p' := p' = p.shift bytes lines
  types _ _ := rfl
  merge := by
    rintro a _ b _ rfl rfl
    exact (Span.merge_shift a b bytes lines).symm
  stretch := by
    rintro a _ b _ rfl rfl
    exact (Span.stretch_shift a b bytes lines).symm
  inside := by
    rintro a _ rfl
    exact Place.shift_inside a bytes lines
  after := by
    rintro p _ cs rfl
    exact Place.shift_after bytes lines p cs
  spans := by
    rintro p _ cs rfl
    exact (Place.shift_span bytes lines p cs).symm

/-- Two cursors over the same tokens, behind which the second has more. -/
structure Followed (tail : List Token) (final : Token) (c d : Cursor) : Prop where
  previous : c.previous = d.previous
  ahead : d.ahead = c.ahead ++ tail
  final : d.final = final
  lexed : c.Lexed

namespace Followed

variable {tail : List Token} {final : Token} {c d : Cursor}

theorem peek (h : Followed tail final c d) (more : c.ahead ≠ []) : c.peek = d.peek := by
  obtain ⟨t, ts, ahead⟩ := List.exists_cons_of_ne_nil more
  have whole := h.ahead
  rw [ahead, List.cons_append] at whole
  rw [Cursor.peek_of_cons ahead, Cursor.peek_of_cons whole]

theorem next (h : Followed tail final c d) (more : c.ahead ≠ []) :
    Followed tail final c.next d.next := by
  obtain ⟨t, ts, ahead⟩ := List.exists_cons_of_ne_nil more
  have whole := h.ahead
  rw [ahead, List.cons_append] at whole
  refine ⟨?_, ?_, ?_, h.lexed.next⟩
  · rw [Cursor.previous_next ahead, Cursor.previous_next whole]
  · rw [Cursor.ahead_next, Cursor.ahead_next, ahead, whole]
    rfl
  · rw [Cursor.next_final, h.final]

theorem skip (h : Followed tail final c d) {n : Nat} (inside : n ≤ c.ahead.length) :
    Followed tail final (c.skip n) (d.skip n) := by
  induction n generalizing c d with
  | zero => exact h
  | succ n ih =>
      have more : c.ahead ≠ [] := List.length_pos_iff.mp (by omega)
      exact ih (h.next more) (by rw [Cursor.length_ahead_next]; omega)

theorem length_eq (h : Followed tail final c d) :
    d.ahead.length = c.ahead.length + tail.length := by
  rw [h.ahead, List.length_append]

end Followed

/-- The cursor stands inside the tokens `whole`, behind some that leave `depth` braces
open. -/
def Inside (whole : List Token) (depth : Nat) (c : Cursor) : Prop :=
  ∃ ts, whole = ts ++ c.ahead ∧ openBraces ts = depth

namespace Inside

variable {whole : List Token} {depth : Nat} {c : Cursor}

theorem start (c : Cursor) : Inside c.ahead 0 c := ⟨[], rfl, rfl⟩

theorem guarded (h : Inside whole depth c) (guarded : Guarded 0 whole) :
    Guarded depth c.ahead := by
  obtain ⟨ts, rfl, rfl⟩ := h
  exact guarded.append

theorem next (h : Inside whole depth c) (more : c.ahead ≠ []) :
    Inside whole (braceStep depth c.peek) c.next := by
  obtain ⟨ts, rfl, rfl⟩ := h
  obtain ⟨t, rest, ahead⟩ := List.exists_cons_of_ne_nil more
  refine ⟨ts ++ [t], ?_, ?_⟩
  · rw [Cursor.ahead_next, ahead]
    simp
  · rw [openBraces_concat, Cursor.peek_of_cons ahead]

theorem next_ne_nil (h : Inside whole depth c) (guarded : Guarded 0 whole) (more : c.ahead ≠ [])
    (kind : c.peek.kind ≠ .semicolon) : c.next.ahead ≠ [] := by
  obtain ⟨t, rest, ahead⟩ := List.exists_cons_of_ne_nil more
  have here := h.guarded guarded
  rw [ahead] at here
  rw [Cursor.peek_of_cons ahead] at kind
  rw [Cursor.ahead_next, ahead]
  exact here.ne_nil kind

/-- Behind a plain token the cursor stands at the same depth, and something follows. -/
theorem next_plain (h : Inside whole depth c) (guarded : Guarded 0 whole) (more : c.ahead ≠ [])
    (plain : c.peek.kind.isPlain = true) : Inside whole depth c.next ∧ c.next.ahead ≠ [] := by
  have inside := h.next more
  rw [braceStep_of_ne _ (Kind.ne_of_isPlain plain rfl) (Kind.ne_of_isPlain plain rfl)] at inside
  exact ⟨inside, h.next_ne_nil guarded more (Kind.ne_of_isPlain plain rfl)⟩

theorem peek_ne_end (more : c.ahead ≠ []) : c.peek.kind ≠ .endOfFile :=
  fun ended => more (Cursor.peek_kind_eq_end.mp ended)

end Inside

/-- Readings of the same guarded tokens, behind which the second run has more. -/
def Pairing.followed (whole tail : List Token) (final : Token) (guarded : Guarded 0 whole) :
    Pairing (View.shift 0 0) where
  rel s c d := Followed tail final c d ∧ Inside whole s.depth c ∧ (s.ended = false → c.ahead ≠ [])
  extra := tail.length
  length h := h.1.length_eq
  peek h := by
    rw [← h.1.peek (h.2.2 rfl)]
    exact View.tokens_of_shape rfl (fun _ => rfl) rfl
  plain h kind := by
    obtain ⟨inside, further⟩ := h.2.1.next_plain guarded (h.2.2 rfl) kind
    exact ⟨h.1.next (h.2.2 rfl), inside, fun _ => further⟩
  opens h kind := by
    have more := h.2.2 rfl
    have inside := h.2.1.next more
    simp only [braceStep, kind] at inside
    exact ⟨h.1.next more, inside, fun _ => h.2.1.next_ne_nil guarded more (by simp [kind])⟩
  closes h kind := by
    have more := h.2.2 rfl
    have inside := h.2.1.next more
    simp only [braceStep, kind] at inside
    exact ⟨h.1.next more, inside, fun _ => h.2.1.next_ne_nil guarded more (by simp [kind])⟩
  ends h kind := by
    have more := h.2.2 rfl
    have inside := h.2.1.next more
    simp only [braceStep, kind] at inside
    exact ⟨h.1.next more, inside, fun open_ => by cases open_⟩
  inner h := by
    refine ⟨h.1, h.2.1, fun _ ended => ?_⟩
    have closed := h.2.1.guarded guarded
    rw [ended] at closed
    cases closed
  anew h := h
  finish h := ⟨h.1, h.2.1, fun ended => by cases ended⟩
  spanFrom h start := by
    cases start
    simp only [Cursor.spanFrom, h.1.previous]
    rfl
  dot h mark := by
    have more := h.2.2 rfl
    rw [(h.1.next more).peek (h.2.1.next_ne_nil guarded more (by simp [mark]))]
    exact .inl rfl
  property h mark name := by
    have more := h.2.2 rfl
    obtain ⟨inside, further⟩ := h.2.1.next_plain guarded more (by rw [mark]; rfl)
    have word := h.1.lexed.next.peek (Inside.peek_ne_end further)
    obtain ⟨inside, furthest⟩ := inside.next_plain guarded further <| by
      rcases name with name | keyword
      · rw [name]
        rfl
      · exact word.isPlain_of_keyword keyword
    exact ⟨(h.1.next more).next further, inside, fun _ => furthest⟩

/-! ## Resuming in the first program -/

section

variable {tail : List Token} {final : Token} {start start' c d : Cursor}

/-- Behind a failed statement at least one token is passed; if none is left, it was a
semicolon. -/
theorem Followed.passed (begins : Followed tail final start start')
    (guarded : Guarded 0 start.ahead) (h : Followed tail final c d) {depth : Nat}
    (inside : Inside start.ahead depth c) (more : c.ahead ≠ []) :
    Followed tail final (passed start c) (passed start' d) ∧
      (∃ depth, Inside start.ahead depth (TwoScript.passed start c)) ∧
      (TwoScript.passed start c).ahead.length < start.ahead.length ∧
      ((TwoScript.passed start c).ahead = [] →
        (TwoScript.passed start c).previous.map (·.kind) = some .semicolon) := by
  unfold TwoScript.passed
  simp only [begins.length_eq, h.length_eq, Nat.add_right_cancel_iff]
  obtain ⟨t, rest, ahead⟩ := List.exists_cons_of_ne_nil more
  split
  · rename_i same
    refine ⟨h.next more, ⟨_, inside.next more⟩, ?_, fun ended => ?_⟩
    · rw [Cursor.length_ahead_next, ← same, ahead]
      simp
    · have here := inside.guarded guarded
      rw [ahead] at here
      rw [Cursor.ahead_next, ahead, List.tail_cons] at ended
      rw [Cursor.previous_next ahead, Option.map_some, here.1 ended]
  · rename_i passed
    refine ⟨h, ⟨depth, inside⟩, ?_, fun ended => (more ended).elim⟩
    obtain ⟨ts, whole, _⟩ := inside
    have lengths := congrArg List.length whole
    rw [List.length_append] at lengths
    omega

theorem Followed.resume (begins : Followed tail final start start')
    (guarded : Guarded 0 start.ahead) (h : Followed tail final c d) {depth : Nat}
    (inside : Inside start.ahead depth c)
    (last : c.ahead = [] → c.previous.map (·.kind) = some .semicolon) :
    Followed tail final (resume start c) (resume start' d) ∧
      Guarded 0 (TwoScript.resume start c).ahead ∧
      (TwoScript.resume start c).ahead.length ≤ c.ahead.length := by
  have here := inside.guarded guarded
  obtain ⟨ts, whole, braces⟩ := inside
  have taken : start.ahead.take (start.ahead.length - c.ahead.length) = ts := by
    rw [whole, List.length_append, Nat.add_sub_cancel, List.take_left]
  have taken' : start'.ahead.take (start'.ahead.length - d.ahead.length) = ts := by
    rw [begins.length_eq, h.length_eq, Nat.add_sub_add_right, begins.ahead, whole,
      List.length_append, Nat.add_sub_cancel, List.append_assoc, List.take_left]
  simp only [TwoScript.resume, taken, taken', braces, ← h.previous]
  split
  · rename_i stops
    rw [stops.1] at here
    exact ⟨h, here, Nat.le_refl _⟩
  · rename_i goes
    have more : c.ahead ≠ [] := by
      intro ended
      rw [ended] at here
      exact goes ⟨here, last ended⟩
    have stops := here.stopsInside tail more
    rw [h.ahead, stops.same]
    refine ⟨h.skip stops.inside, ?_, ?_⟩
    · rw [Cursor.ahead_skip]
      exact stops.guarded
    · simp

theorem ParseError.relabel_same : ∀ e : ParseError, e.relabel Labels.same.span id = e
  | .unexpected _ _ _ | .endOfFile _ _ | .noLiteral _ _ | .cannotStart _ _ | .negatedNonNumber _
  | .assignmentTarget _ | .tooDeep _ => rfl
  | .lexical ⟨_, _, _⟩ => rfl
  | .interpolation cause _ => by rw [relabel, relabel_same cause]; rfl

/-- One statement of a program with more tokens behind it. -/
theorem statementOrFailure_followed {g : Grammar} (agrees : g.Agrees (View.shift 0 0))
    (sound : g.Sound) (h : Followed tail final c d) (guarded : Guarded 0 c.ahead)
    (more : c.ahead ≠ []) :
    ∃ s e c' d', statementOrFailure g c = (s, e, c') ∧ statementOrFailure g d = (s, e, d') ∧
      Followed tail final c' d' ∧ Guarded 0 c'.ahead ∧ c'.ahead.length < c.ahead.length := by
  have begins : (Pairing.followed c.ahead tail final guarded).rel ⟨true, 0, false⟩ c d :=
    ⟨h, .start c, fun _ => more⟩
  have span : c.span = d.span := congrArg Token.span (h.peek more)
  unfold statementOrFailure
  rcases (agrees.statement begins).ends with ⟨s, s', c', d', left, right, same, there, inside, _⟩ |
    ⟨e, e', c', d', k, left, right, same, there, inside, further⟩
  · have same : s = s' := by
      rw [← Statement.relabel_same s, ← Statement.relabel_same s']
      exact same
    rw [left, right, ← same]
    exact ⟨s, none, c', d', rfl, rfl, there, inside.guarded guarded,
      (sound.statement h.lexed left).1.length_lt⟩
  · have same : e = e' := by
      rw [← ParseError.relabel_same e, ← ParseError.relabel_same e']
      exact same
    obtain ⟨followed, ⟨depth, inside⟩, shorter, last⟩ :=
      h.passed guarded there inside (further rfl)
    obtain ⟨resumed, outermost, behind⟩ := h.resume guarded followed inside last
    rw [left, right, ← same]
    refine ⟨_, some e, _, _, rfl, ?_, resumed, outermost, Nat.lt_of_le_of_lt behind shorter⟩
    simp only [recover_eq, Cursor.spanFrom, resumed.previous, span]

end

/-! ## One program behind another -/

namespace Program

def append (p q : Program) : Program :=
  ⟨p.statements ++ q.statements, p.errors ++ q.errors⟩

theorem push_append (s : Statement) (e : Option ParseError) (p q : Program) :
    (p.push s e).append q = (p.append q).push s e := by
  simp [push, append]

end Program

/-- The first program is read as if it stood alone, and the rest from behind it. -/
theorem programFrom_followed {g : Grammar} (agrees : g.Agrees (View.shift 0 0)) (sound : g.Sound)
    {tail : List Token} {final : Token} {c d : Cursor} (h : Followed tail final c d)
    (guarded : Guarded 0 c.ahead) :
    ∃ d', d'.ahead = tail ∧ d'.final = final ∧
      (programFrom g d).1 = (programFrom g c).1.append (programFrom g d').1 := by
  induction length : c.ahead.length using Nat.strongRecOn generalizing c d with
  | ind n ih =>
      by_cases more : c.ahead = []
      · refine ⟨d, by rw [h.ahead, more]; rfl, h.final, ?_⟩
        rw [programFrom.eq_def g c, if_pos (by simp [Cursor.atEnd, more])]
        rfl
      · obtain ⟨s, e, c', d', left, right, there, outermost, shorter⟩ :=
          statementOrFailure_followed agrees sound h guarded more
        obtain ⟨d'', ahead, ends, rest⟩ := ih _ (by omega) there outermost rfl
        refine ⟨d'', ahead, ends, ?_⟩
        have shorter' : d'.ahead.length < d.ahead.length := by
          rw [there.length_eq, h.length_eq]
          omega
        have going : ¬c.atEnd = true := by simp [Cursor.atEnd, more]
        have going' : ¬d.atEnd = true := by simp [Cursor.atEnd, more, h.ahead]
        rw [programFrom.eq_def g c, programFrom.eq_def g d, if_neg going, if_neg going', left,
          right]
        simp only [shorter, shorter', if_true]
        rw [Program.push_append, rest]

/-- As many braces open as close, and none closes before it is opened. -/
def BracesBalanced (ts : List Token) : Prop :=
  countKind .leftBrace ts = countKind .rightBrace ts ∧
    ∀ n ≤ ts.length, countKind .rightBrace (ts.take n) ≤ countKind .leftBrace (ts.take n)

instance (ts : List Token) : Decidable (BracesBalanced ts) :=
  inferInstanceAs (Decidable (_ ∧ _))

theorem guarded_of_balanced {ts : List Token} {p : Place}
    (last : ts.getLast?.map Token.kind = some .semicolon)
    (balanced : BracesBalanced (ts ++ [endToken p])) : Guarded 0 ts := by
  obtain ⟨total, never⟩ := balanced
  have ends : ∀ kind, kind ≠ .endOfFile → countKind kind (ts ++ [endToken p]) = countKind kind ts := by
    intro kind inner
    simp [countKind, List.countP_append, endToken, inner.symm]
  refine guarded_of_counts (fun t ht => ?_) (fun us hus => ?_) ?_
  · rw [ht] at last
    exact Option.some.inj last
  · have start := hus.trans (List.prefix_append ts [endToken p])
    rw [Nat.zero_add, List.prefix_iff_eq_take.mp start]
    exact never _ start.length_le
  · rw [Nat.zero_add, ← ends _ (by decide), total, ends _ (by decide)]

namespace Program

def shift (bytes lines : Nat) (p : Program) : Program :=
  p.relabel (.shift bytes lines) id

theorem relabel_same (p : Program) : p.relabel .same id = p := by
  obtain ⟨statements, errors⟩ := p
  have same : Statement.relabel .same = id := funext Statement.relabel_same
  have same' : ParseError.relabel Labels.same.span id = id := funext ParseError.relabel_same
  simp [relabel, same, same']

end Program

/-- A text whose last token is a semicolon leaves no template open. -/
theorem closed_of_semicolon {cs : List Char}
    (last : (tokensFrom .first cs).dropLast.getLast?.map Token.kind = some .semicolon) :
    ∀ t ∈ shapes cs, t.kind ≠ .invalid .unterminatedTemplate := by
  intro t ht opened
  have final := getLast?_of_unterminated ht opened
  rw [shapes, List.getLast?_map] at final
  obtain ⟨u, hu, rfl⟩ := Option.map_eq_some_iff.mp final
  rw [hu, Option.map_some] at last
  cases opened.symm.trans (Option.some.inj last)

/-- Behind a line feed the second text is ahead of where the first one ends. -/
theorem Cursor.ofTokens_newline {cs : List Char} (p : Place) (ds : List Char)
    (closed : ∀ t ∈ shapes cs, t.kind ≠ .invalid .unterminatedTemplate) :
    let e := ofTokens (tokensFrom (p.after (cs ++ ['\n'])) ds)
    Followed e.ahead e.final (ofTokens (tokensFrom p cs))
      (ofTokens (tokensFrom p (cs ++ '\n' :: ds))) := by
  obtain ⟨ts, alone, both⟩ := tokensFrom_newline p ds closed
  obtain ⟨us, second, _⟩ := exists_tokensFrom (p.after (cs ++ ['\n'])) ds
  have place : (p.after (cs ++ ['\n'])).after ds = p.after (cs ++ '\n' :: ds) := by
    rw [← Place.after_append]
    simp
  have whole : tokensFrom p (cs ++ '\n' :: ds) = (ts ++ us) ++
      [endToken (p.after (cs ++ '\n' :: ds))] := by
    rw [both, second, place, List.append_assoc]
  obtain ⟨ahead, _⟩ := ofTokens_eq alone
  obtain ⟨ahead', final'⟩ := ofTokens_eq second
  obtain ⟨ahead'', final''⟩ := ofTokens_eq whole
  exact ⟨rfl, by rw [ahead, ahead', ahead''], by rw [final', final'', place],
    (ofTokens_tokensFrom p cs).2.2⟩

/-- Two sources with a line feed between them, the first with balanced braces and a
semicolon at its end, are read as each of them alone. -/
theorem parse_line_append (s₁ s₂ : String)
    (last : (tokenize s₁).dropLast.getLast?.map Token.kind = some .semicolon)
    (balanced : BracesBalanced (tokenize s₁)) :
    parse (s₁ ++ "\n" ++ s₂) = (parse s₁).append
      ((parse s₂).shift (byteLength s₁.toList + 1) (lineFeeds s₁.toList + 1)) := by
  let v := View.shift (byteLength s₁.toList + 1) (lineFeeds s₁.toList + 1)
  have text : (s₁ ++ "\n" ++ s₂).toList = s₁.toList ++ '\n' :: s₂.toList := by simp
  have followed := Cursor.ofTokens_newline .first s₂.toList (closed_of_semicolon last)
  have guarded : Guarded 0 (Cursor.ofTokens (tokenize s₁)).ahead := by
    obtain ⟨ts, alone, _⟩ := exists_tokensFrom .first s₁.toList
    rw [tokenize, alone] at last balanced
    rw [List.dropLast_concat] at last
    rw [tokenize, (Cursor.ofTokens_eq alone).1]
    exact guarded_of_balanced last balanced
  obtain ⟨d, ahead, final, first⟩ := programFrom_followed (Grammar.agrees_ofRoom _ maxNesting)
    (Grammar.sound_ofRoom maxNesting) followed guarded
  have alike : v.Ahead (Cursor.ofTokens (tokenize s₂)) d := by
    have elsewhere := View.ahead_ofTokens (v := v) s₂.toList (p := .first)
      (Place.first_after_newline s₁.toList)
    obtain ⟨similar, ends, same⟩ := elsewhere
    exact ⟨by rw [ahead]; exact similar, by rw [final]; exact ends, by rw [final]; exact same⟩
  have second := programFrom_alike (Grammar.agrees_ofRoom v maxNesting) alike
  calc parse (s₁ ++ "\n" ++ s₂)
      = (parse s₁).append (programFrom (.ofRoom maxNesting) d).1 := by
        rw [parse, tokenize, text]
        exact first
    _ = (parse s₁).append ((parse s₂).shift _ _) := by
        congr 1
        rw [← Program.relabel_same (programFrom _ d).1]
        exact second.symm

theorem parse_line_append_failures :
    ((tokenize "let = x; { y; };").dropLast.getLast?.map Token.kind = some .semicolon ∧
      BracesBalanced (tokenize "let = x; { y; };")) ∧
    parse ("let = x; { y; };" ++ "\n" ++ "z + ;") =
      (parse "let = x; { y; };").append ((parse "z + ;").shift 17 1) := by
  have last : (tokenize "let = x; { y; };").dropLast.getLast?.map Token.kind =
      some .semicolon := by decide +kernel
  have balanced : BracesBalanced (tokenize "let = x; { y; };") := by decide +kernel
  exact ⟨⟨last, balanced⟩, parse_line_append _ _ last balanced⟩

end TwoScript
