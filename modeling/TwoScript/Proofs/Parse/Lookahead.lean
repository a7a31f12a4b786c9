import TwoScript.Proofs.Parse.Recovery

/-!
# How far readers look ahead

What was read while something was left ahead is read alike when the tokens go on otherwise
behind that. An expression that was read up to the end of its tokens is also read alike when
more tokens follow, as long as the first of these cannot continue it. A statement looks one
token further, for an alternative or a semicolon. One level on top of a grammar with these
properties has them, so every grammar built by levels does: `Grammar.steady_ofRoom`.
-/

namespace TwoScript

open TwoScript.Parser

namespace Cursor

theorem ahead_ne_nil {c : Cursor} {kind : Kind} (mark : c.peek.kind = kind)
    (inner : kind ≠ .endOfFile) : c.ahead ≠ [] := by
  intro ended
  rw [← mark, peek_kind_eq_end.mpr ended] at inner
  exact inner rfl

end Cursor

namespace Followed

variable {tail : List Token} {final : Token} {c d : Cursor}

/-- Both cursors pass over a token of the given kind. -/
theorem step (h : Followed tail final c d) {kind : Kind} (mark : c.peek.kind = kind)
    (inner : kind ≠ .endOfFile) :
    d.peek.kind = kind ∧ d.peek = c.peek ∧ Followed tail final c.next d.next := by
  have more := Cursor.ahead_ne_nil mark inner
  have same := h.peek more
  exact ⟨by rw [← same, mark], same.symm, h.next more⟩

theorem spanFrom (h : Followed tail final c d) (start : Span) :
    d.spanFrom start = c.spanFrom start := by
  rw [Cursor.spanFrom, Cursor.spanFrom, h.previous]

def Again {α : Type} (tail : List Token) (final : Token) (p : Parser α) (a : α)
    (c' d : Cursor) : Prop :=
  ∃ d', p d = .ok a d' ∧ Followed tail final c' d'

end Followed

open Followed (Again)

/-- The tokens begin with one that cannot continue an expression. -/
def Stops (tail : List Token) : Prop :=
  ∀ t ∈ tail.head?, Precedence.ofKind t.kind = .lowest

/-! ## Loops -/

namespace Parser

variable {tail : List Token} {final : Token} {α : Type} {c c' d : Cursor}

theorem many_begins {step : Parser (Option α)} {as : List α}
    (stops : ∀ {c c'}, step c = .ok none c' → c = c')
    (begins : ∀ {c c' a}, step c = .ok (some a) c' → c.ahead ≠ [])
    (run : many step c = .ok as c') (more : c'.ahead ≠ []) : c.ahead ≠ [] := by
  cases many_ok.mp run with
  | stop stop => rwa [stops stop]
  | stuck first _ => exact begins first
  | more first _ _ => exact begins first

/-- A loop that leaves something ahead left something ahead after every step. -/
theorem many_again {step : Parser (Option α)} {as : List α}
    (stops : ∀ {c c'}, step c = .ok none c' → c = c')
    (begins : ∀ {c c' a}, step c = .ok (some a) c' → c.ahead ≠ [])
    (steps : ∀ {c c' d r}, step c = .ok r c' → c'.ahead ≠ [] → Followed tail final c d →
      Again tail final step r c' d)
    (run : many step c = .ok as c') (more : c'.ahead ≠ []) (h : Followed tail final c d) :
    Again tail final (many step) as c' d := by
  rw [many_ok] at run
  induction run generalizing d with
  | stop stop =>
      obtain ⟨d', same, there⟩ := steps stop more h
      exact ⟨d', many_ok.mpr (.stop same), there⟩
  | stuck first stuck =>
      obtain ⟨d', same, there⟩ := steps first more h
      exact ⟨d', many_ok.mpr (.stuck same (by simpa [there.length_eq, h.length_eq] using stuck)),
        there⟩
  | more first shorter rest ih =>
      have inner := many_begins stops begins (many_ok.mpr rest) more
      obtain ⟨d₁, same, there⟩ := steps first inner h
      obtain ⟨d', again, behind⟩ := ih more there
      refine ⟨d', many_ok.mpr (.more same ?_ (many_ok.mp again)), behind⟩
      simpa [there.length_eq, h.length_eq] using shorter

theorem iterate_begins {σ : Type} {step : σ → Parser (Option σ)} {s s' : σ}
    (run : iterate step s c = .ok s' c')
    (stops : ∀ {s c c'}, step s c = .ok none c' → c = c')
    (begins : ∀ {s s₁ c c'}, step s c = .ok (some s₁) c' → c.ahead ≠ [])
    (ended : c.ahead = []) : c'.ahead = [] := by
  cases iterate_ok.mp run with
  | stop stop => rwa [← stops stop]
  | stuck first _ => exact absurd ended (begins first)
  | more first _ _ => exact absurd ended (begins first)

/-- A loop that may end its input only in front of a token that stops it. -/
theorem iterate_again {σ : Type} {step : σ → Parser (Option σ)} {s s' : σ}
    (run : iterate step s c = .ok s' c')
    (stops : ∀ {s c c'}, step s c = .ok none c' → c = c')
    (begins : ∀ {s s₁ c c'}, step s c = .ok (some s₁) c' → c.ahead ≠ [])
    (steps : ∀ {s c c' d r}, step s c = .ok r c' → (c'.ahead = [] → Stops tail) →
      Followed tail final c d → Again tail final (step s) r c' d)
    (last : c'.ahead = [] → Stops tail) (h : Followed tail final c d) :
    Again tail final (iterate step s) s' c' d := by
  rw [iterate_ok] at run
  induction run generalizing d with
  | stop stop =>
      obtain ⟨d', same, there⟩ := steps stop last h
      exact ⟨d', iterate_ok.mpr (.stop same), there⟩
  | stuck first stuck =>
      obtain ⟨d', same, there⟩ := steps first last h
      exact ⟨d', iterate_ok.mpr (.stuck same (by simpa [there.length_eq, h.length_eq] using stuck)),
        there⟩
  | more first shorter rest ih =>
      have ends := iterate_begins (iterate_ok.mpr rest) stops begins
      obtain ⟨d₁, same, there⟩ := steps first (fun ended => last (ends ended)) h
      obtain ⟨d', again, behind⟩ := ih last there
      refine ⟨d', iterate_ok.mpr (.more same ?_ (iterate_ok.mp again)), behind⟩
      simpa [there.length_eq, h.length_eq] using shorter

theorem items_again {item : Parser α} {as : List α}
    (each : ∀ {c c' d a}, item c = .ok a c' → c'.ahead ≠ [] → Followed tail final c d →
      Again tail final item a c' d)
    (run : items item c = .ok as c') (more : c'.ahead ≠ []) (h : Followed tail final c d) :
    Again tail final (items item) as c' d := by
  refine many_again (fun {c c'} run => ?_) (fun {c c' a} run => ?_)
    (fun {c c' d r} run more h => ?_) run more h
  · rcases itemBeforeBrace_ok.mp run with ⟨_, _, same⟩ | ⟨_, _, a, _, none⟩
    · exact same
    · cases none
  · rcases itemBeforeBrace_ok.mp run with ⟨_, none, _⟩ | ⟨_, inner, _⟩
    · cases none
    · exact Cursor.ahead_ne_nil rfl inner
  · rcases itemBeforeBrace_ok.mp run with ⟨ends, rfl, rfl⟩ | ⟨opened, inner, a, read, rfl⟩
    · have same := h.peek more
      exact ⟨d, itemBeforeBrace_ok.mpr (.inl ⟨by rwa [← same], rfl, rfl⟩), h⟩
    · obtain ⟨d', again, there⟩ := each read more h
      have same := h.peek (Cursor.ahead_ne_nil rfl inner)
      exact ⟨d', itemBeforeBrace_ok.mpr
        (.inr ⟨by rwa [← same], by rwa [← same], a, again, rfl⟩), there⟩

theorem optionally_again {kind : Kind} (inner : kind ≠ .endOfFile) {item : Parser α}
    {r : Option α}
    (each : ∀ {c c' d a}, item c = .ok a c' → c'.ahead ≠ [] → Followed tail final c d →
      Again tail final item a c' d)
    (run : optionally kind item c = .ok r c') (more : c'.ahead ≠ [])
    (h : Followed tail final c d) : Again tail final (optionally kind item) r c' d := by
  rcases optionally_ok.mp run with ⟨mark, a, read, rfl⟩ | ⟨other, rfl, rfl⟩
  · obtain ⟨mark, _, behind⟩ := h.step mark inner
    obtain ⟨d', again, there⟩ := each read more behind
    exact ⟨d', optionally_ok.mpr (.inl ⟨mark, a, again, rfl⟩), there⟩
  · rw [h.peek more] at other
    exact ⟨d, optionally_ok.mpr (.inr ⟨other, rfl, rfl⟩), h⟩

theorem separated_again {close : Kind} {item : Parser α} {as : List α}
    (begins : ∀ {c c' a}, item c = .ok a c' → c.ahead ≠ [])
    (each : ∀ {c c' d a}, item c = .ok a c' → c'.ahead ≠ [] → Followed tail final c d →
      Again tail final item a c' d)
    (run : separated close item c = .ok as c') (more : c'.ahead ≠ [])
    (h : Followed tail final c d) : Again tail final (separated close item) as c' d := by
  have stops : ∀ {c c'}, optionally .comma item c = .ok none c' → c = c' := by
    intro c c' run
    rcases optionally_ok.mp run with ⟨_, a, _, none⟩ | ⟨_, _, same⟩
    · cases none
    · exact same
  have goes : ∀ {c c' a}, optionally .comma item c = .ok (some a) c' → c.ahead ≠ [] := by
    intro c c' a run
    rcases optionally_ok.mp run with ⟨comma, _⟩ | ⟨_, none, _⟩
    · exact Cursor.ahead_ne_nil comma (by decide)
    · cases none
  rcases separated_ok.mp run with ⟨mark, rfl, rfl⟩ | ⟨other, first, c₁, read, rest, loop, rfl⟩
  · rw [h.peek more] at mark
    exact ⟨d, separated_ok.mpr (.inl ⟨mark, rfl, rfl⟩), h⟩
  · obtain ⟨d₁, again, there⟩ := each read (many_begins stops goes loop more) h
    obtain ⟨d', others, behind⟩ := many_again stops goes
      (optionally_again (by decide) each) loop more there
    rw [h.peek (begins read)] at other
    exact ⟨d', separated_ok.mpr (.inr ⟨other, first, d₁, again, rest, others, rfl⟩), behind⟩

end Parser

/-- What the grammar has read it reads again in front of more tokens, if something was left
ahead. Expressions may also have come to the end of their input, if what follows stops
them. -/
structure Grammar.Steady (g : Grammar) (tail : List Token) (final : Token) : Prop where
  begins {min : Precedence} {c c' : Cursor} {e : Expr} :
    g.expression min c = .ok e c' → c.ahead ≠ []
  statement {c c' d : Cursor} {s : Statement} : g.statement c = .ok s c' → c'.ahead ≠ [] →
    Followed tail final c d → Again tail final g.statement s c' d
  expression {min : Precedence} {c c' d : Cursor} {e : Expr} : g.expression min c = .ok e c' →
    (c'.ahead = [] → Stops tail) → Followed tail final c d →
    Again tail final (g.expression min) e c' d

namespace Grammar

variable {tail : List Token} {final : Token} {g : Grammar} {c c' d : Cursor} {e : Expr}
  {s : Statement}

/-! ## Primary expressions -/

theorem literal_again (inner : c.peek.kind ≠ .endOfFile) (run : literal c = .ok e c')
    (h : Followed tail final c d) : Again tail final literal e c' d := by
  obtain ⟨value, found, rfl, rfl⟩ := literal_ok.mp run
  obtain ⟨_, same, there⟩ := h.step rfl inner
  exact ⟨d.next, literal_ok.mpr ⟨value, by rw [same, found], by rw [same], rfl⟩, there⟩

theorem pattern_again (run : pattern c = .ok e c') (h : Followed tail final c d) :
    Again tail final pattern e c' d := by
  rcases pattern_ok.mp run with ⟨minus, negated⟩ | ⟨kinds, read⟩
  · obtain ⟨number, negated⟩ := negatedNumber_ok.mp negated
    obtain ⟨x, found, rfl, rfl⟩ := negatedLiteral_ok.mp negated
    obtain ⟨minus', first, there⟩ := h.step minus (by decide)
    obtain ⟨number', second, behind⟩ := there.step number (by decide)
    refine ⟨d.next.next, pattern_ok.mpr (.inl ⟨minus', negatedNumber_ok.mpr ⟨number', ?_⟩⟩), behind⟩
    refine negatedLiteral_ok.mpr ⟨x, by rw [second, found], ?_, rfl⟩
    rw [behind.spanFrom, Cursor.span, Cursor.span, first]
  · have inner : c.peek.kind ≠ .endOfFile := by
      rcases kinds with kind | kind | kind | kind | kind <;> simp [kind]
    obtain ⟨d', again, there⟩ := literal_again inner read h
    rw [h.peek (Cursor.ahead_ne_nil rfl inner)] at kinds
    exact ⟨d', pattern_ok.mpr (.inr ⟨kinds, again⟩), there⟩

theorem armPattern_again {r : Option Expr} (run : armPattern c = .ok r c')
    (h : Followed tail final c d) : Again tail final armPattern r c' d := by
  rcases armPattern_ok.mp run with ⟨word, rfl, rfl⟩ | ⟨other, e, read, rfl⟩
  · obtain ⟨word, _, there⟩ := h.step word (by decide)
    exact ⟨d.next, armPattern_ok.mpr (.inl ⟨word, rfl, rfl⟩), there⟩
  · have more : c.ahead ≠ [] := by
      rcases pattern_ok.mp read with ⟨kind, _⟩ | ⟨kind | kind | kind | kind | kind, _⟩
      all_goals exact Cursor.ahead_ne_nil kind (by decide)
    obtain ⟨d', again, there⟩ := pattern_again read h
    rw [h.peek more] at other
    exact ⟨d', armPattern_ok.mpr (.inr ⟨other, e, again, rfl⟩), there⟩

theorem armEnd_begins {u : Unit} (run : armEnd c = .ok u c') (more : c'.ahead ≠ []) :
    c.ahead ≠ [] := by
  have ended := armEnd_ok.mp run
  split at ended
  · rename_i mark
    rcases mark with mark | mark <;> exact Cursor.ahead_ne_nil mark (by decide)
  · rwa [ended]

theorem armEnd_again {u : Unit} (run : armEnd c = .ok u c') (more : c'.ahead ≠ [])
    (h : Followed tail final c d) : Again tail final armEnd u c' d := by
  have ended := armEnd_ok.mp run
  by_cases mark : c.peek.kind = .comma ∨ c.peek.kind = .semicolon
  · have inner := armEnd_begins run more
    rw [if_pos mark] at ended
    rw [h.peek inner] at mark
    exact ⟨d.next, armEnd_ok.mpr (if_pos mark), ended ▸ h.next inner⟩
  · rw [if_neg mark] at ended
    subst ended
    rw [h.peek more] at mark
    exact ⟨d, armEnd_ok.mpr (if_neg mark), h⟩

theorem property_again {name : String} (run : property c = .ok name c')
    (h : Followed tail final c d) : Again tail final property name c' d := by
  obtain ⟨word, rfl, rfl⟩ := property_ok.mp run
  have inner := h.lexed.ne_end_of_property (Shape.isProperty_iff.mpr word)
  obtain ⟨_, same, there⟩ := h.step rfl inner
  exact ⟨d.next, property_ok.mpr ⟨by rwa [same], by rw [same], rfl⟩, there⟩

theorem typeName_again {name : String} (run : typeName c = .ok name c')
    (h : Followed tail final c d) : Again tail final typeName name c' d := by
  obtain ⟨word, rfl, rfl⟩ := typeName_ok.mp run
  have inner : c.peek.kind ≠ .endOfFile := by
    rcases word with kind | kind <;> simp [kind]
  obtain ⟨_, same, there⟩ := h.step rfl inner
  exact ⟨d.next, typeName_ok.mpr ⟨by rwa [same], by rw [same], rfl⟩, there⟩

theorem typeAnnotation_again {type : Option String} (run : typeAnnotation c = .ok type c')
    (more : c'.ahead ≠ []) (h : Followed tail final c d) :
    Again tail final typeAnnotation type c' d :=
  optionally_again (by decide) (fun run _ => typeName_again run) run more h

theorem block_begins {body : List Statement} (run : g.block c = .ok body c') : c.ahead ≠ [] :=
  Cursor.ahead_ne_nil (block_ok.mp run).1 (by decide)

theorem operand_begins (run : g.operand c = .ok e c') : c.peek.kind ≠ .endOfFile := by
  intro ended
  simp [operand_ok, Shape.isLiteral_iff, ended, UnaryOp.ofKind?] at run

namespace Steady

theorem inside (steady : g.Steady tail final) {min : Precedence}
    (run : g.expression min c = .ok e c') (more : c'.ahead ≠ []) (h : Followed tail final c d) :
    Again tail final (g.expression min) e c' d :=
  steady.expression run (fun ended => absurd ended more) h

/-! ## Blocks and selections -/

theorem block (steady : g.Steady tail final) {body : List Statement}
    (run : g.block c = .ok body c') (h : Followed tail final c d) :
    Again tail final g.block body c' d := by
  obtain ⟨opens, ss, c₁, inside, closes, rfl, rfl⟩ := block_ok.mp run
  obtain ⟨opens, _, there⟩ := h.step opens (by decide)
  obtain ⟨d₁, again, last⟩ := items_again steady.statement inside
    (Cursor.ahead_ne_nil closes (by decide)) there
  obtain ⟨closes, _, behind⟩ := last.step closes (by decide)
  exact ⟨d₁.next, block_ok.mpr ⟨opens, ss, d₁, again, closes, rfl, rfl⟩, behind⟩

theorem blockStatement (steady : g.Steady tail final) (run : g.blockStatement c = .ok s c')
    (h : Followed tail final c d) : Again tail final g.blockStatement s c' d := by
  obtain ⟨body, c₁, inside, rfl, rfl⟩ := blockStatement_ok.mp run
  obtain ⟨d', again, there⟩ := steady.block inside h
  refine ⟨d', blockStatement_ok.mpr ⟨body, d', again, ?_, rfl⟩, there⟩
  rw [there.spanFrom, Cursor.span, Cursor.span, h.peek (block_begins inside)]

theorem armBody (steady : g.Steady tail final) (run : g.armBody c = .ok s c')
    (more : c'.ahead ≠ []) (h : Followed tail final c d) : Again tail final g.armBody s c' d := by
  rcases armBody_ok.mp run with ⟨brace, read⟩ | ⟨other, read⟩
  · obtain ⟨brace, _, _⟩ := h.step brace (by decide)
    obtain ⟨d', again, there⟩ := steady.blockStatement read h
    exact ⟨d', armBody_ok.mpr (.inl ⟨brace, again⟩), there⟩
  · obtain ⟨value, inside, rfl⟩ := armValue_ok.mp read
    obtain ⟨d', again, there⟩ := steady.inside inside more h
    rw [h.peek (steady.begins inside)] at other
    exact ⟨d', armBody_ok.mpr (.inr ⟨other, armValue_ok.mpr ⟨value, again, rfl⟩⟩), there⟩

theorem arm (steady : g.Steady tail final) {a : Arm} (run : g.arm c = .ok a c')
    (more : c'.ahead ≠ []) (h : Followed tail final c d) : Again tail final g.arm a c' d := by
  obtain ⟨pattern, c₁, first, arrow, body, c₂, read, u, c₃, ended, rfl, rfl⟩ := arm_ok.mp run
  obtain ⟨d₁, first, there⟩ := armPattern_again first h
  obtain ⟨arrow, _, there⟩ := there.step arrow (by decide)
  obtain ⟨d₂, read, there⟩ := steady.armBody read (armEnd_begins ended more) there
  obtain ⟨d₃, ended, there⟩ := armEnd_again ended more there
  exact ⟨d₃, arm_ok.mpr ⟨pattern, d₁, first, arrow, body, d₂, read, u, d₃, ended, rfl, rfl⟩, there⟩

theorem selection (steady : g.Steady tail final) (begins : c.peek.kind = .matchWord)
    (run : g.selection c = .ok e c') (h : Followed tail final c d) :
    Again tail final g.selection e c' d := by
  obtain ⟨subject, c₁, first, opens, arms, c₂, inside, closes, rfl, rfl⟩ := selection_ok.mp run
  obtain ⟨_, word, there⟩ := h.step begins (by decide)
  obtain ⟨d₁, first, there⟩ := steady.inside first (Cursor.ahead_ne_nil opens (by decide)) there
  obtain ⟨opens, _, there⟩ := there.step opens (by decide)
  obtain ⟨d₂, inside, there⟩ := items_again steady.arm inside
    (Cursor.ahead_ne_nil closes (by decide)) there
  obtain ⟨closes, _, there⟩ := there.step closes (by decide)
  refine ⟨d₂.next, selection_ok.mpr
    ⟨subject, d₁, first, opens, arms, d₂, inside, closes, ?_, rfl⟩, there⟩
  rw [there.spanFrom, Cursor.span, Cursor.span, word]

/-! ## Operators -/

theorem operand (steady : g.Steady tail final) (run : g.operand c = .ok e c')
    (last : c'.ahead = [] → Stops tail) (h : Followed tail final c d) :
    Again tail final g.operand e c' d := by
  have inner := operand_begins run
  obtain ⟨_, same, there⟩ := h.step rfl inner
  have span : d.span = c.span := congrArg Token.span same
  rcases operand_ok.mp run with ⟨kind, read⟩ | ⟨kind, read⟩ | ⟨kind, read⟩ | ⟨kind, read⟩ |
    ⟨kind, read⟩ | ⟨op, kind, read⟩ | ⟨kind, read⟩
  · obtain ⟨d', again, behind⟩ := literal_again inner read h
    exact ⟨d', operand_ok.mpr (.inl ⟨by rwa [same], again⟩), behind⟩
  · obtain ⟨parts, inside, rfl, rfl⟩ := template_ok.mp read
    have again := template_ok.mpr ⟨parts, by rw [same, inside], by rw [same], rfl⟩
    exact ⟨d.next, operand_ok.mpr (.inr (.inl ⟨by rwa [same], again⟩)), there⟩
  · obtain ⟨rfl, rfl⟩ := ident_ok.mp read
    have again := ident_ok.mpr ⟨by rw [same], rfl⟩
    exact ⟨d.next, operand_ok.mpr (.inr (.inr (.inl ⟨by rwa [same], again⟩))), there⟩
  · obtain ⟨inner, c₁, inside, closes, rfl, rfl⟩ := group_ok.mp read
    obtain ⟨d₁, again, there⟩ := steady.inside inside (Cursor.ahead_ne_nil closes (by decide)) there
    obtain ⟨closes, _, there⟩ := there.step closes (by decide)
    refine ⟨d₁.next, operand_ok.mpr (.inr (.inr (.inr (.inl ⟨by rwa [same], group_ok.mpr
      ⟨inner, d₁, again, closes, ?_, rfl⟩⟩)))), there⟩
    rw [there.spanFrom, span]
  · obtain ⟨d', again, behind⟩ := steady.selection kind read h
    exact ⟨d', operand_ok.mpr (.inr (.inr (.inr (.inr (.inl ⟨by rwa [same], again⟩))))), behind⟩
  · obtain ⟨inner, c₁, inside, rfl, rfl⟩ := unary_ok.mp read
    obtain ⟨d₁, again, there⟩ := steady.expression inside last there
    refine ⟨d₁, operand_ok.mpr (.inr (.inr (.inr (.inr (.inr (.inl ⟨op, by rwa [same],
      unary_ok.mpr ⟨inner, d₁, again, ?_, rfl⟩⟩)))))), there⟩
    rw [there.spanFrom, span]
  · obtain ⟨inner, c₁, inside, rfl, rfl⟩ := await_ok.mp read
    obtain ⟨d₁, again, there⟩ := steady.expression inside last there
    refine ⟨d₁, operand_ok.mpr (.inr (.inr (.inr (.inr (.inr (.inr ⟨by rwa [same],
      await_ok.mpr ⟨inner, d₁, again, ?_, rfl⟩⟩)))))), there⟩
    rw [there.spanFrom, span]

theorem continuation (steady : g.Steady tail final) {left : Expr} (inner : c.peek.kind ≠ .endOfFile)
    (run : g.continuation left c = .ok e c') (last : c'.ahead = [] → Stops tail)
    (h : Followed tail final c d) : Again tail final (g.continuation left) e c' d := by
  obtain ⟨_, same, there⟩ := h.step rfl inner
  rcases continuation_ok.mp run with ⟨kind, read⟩ | ⟨kind, read⟩ | ⟨op, kind, read⟩ |
    ⟨op, kind, read⟩
  · obtain ⟨args, c₁, inside, closes, rfl, rfl⟩ := callOf_ok.mp read
    obtain ⟨d₁, again, there⟩ := separated_again steady.begins steady.inside inside
      (Cursor.ahead_ne_nil closes (by decide)) there
    obtain ⟨closes, _, there⟩ := there.step closes (by decide)
    refine ⟨d₁.next, continuation_ok.mpr (.inl ⟨by rwa [same], callOf_ok.mpr
      ⟨args, d₁, again, closes, ?_, rfl⟩⟩), there⟩
    rw [there.spanFrom]
  · obtain ⟨name, c₁, word, rfl, rfl⟩ := memberOf_ok.mp read
    obtain ⟨d₁, again, there⟩ := property_again word there
    refine ⟨d₁, continuation_ok.mpr (.inr (.inl ⟨by rwa [same], memberOf_ok.mpr
      ⟨name, d₁, again, ?_, rfl⟩⟩)), there⟩
    rw [there.spanFrom]
  · obtain ⟨fits, value, c₁, inside, rfl, rfl⟩ := assignmentTo_ok.mp read
    obtain ⟨d₁, again, there⟩ := steady.expression inside last there
    exact ⟨d₁, continuation_ok.mpr (.inr (.inr (.inl ⟨op, by rwa [same], assignmentTo_ok.mpr
      ⟨fits, value, d₁, again, rfl, rfl⟩⟩))), there⟩
  · obtain ⟨right, c₁, inside, rfl, rfl⟩ := operationOn_ok.mp read
    obtain ⟨d₁, again, there⟩ := steady.expression inside last there
    exact ⟨d₁, continuation_ok.mpr (.inr (.inr (.inr ⟨op, by rwa [same], operationOn_ok.mpr
      ⟨right, d₁, by rwa [same], rfl, rfl⟩⟩))), there⟩

theorem extend_stops {room : Nat} {min : Precedence} {chain : Chain}
    (run : g.extend room min chain c = .ok none c') : c = c' := by
  rcases extend_ok.mp run with ⟨_, _, same⟩ | ⟨_, e, _, _, none⟩
  · exact same
  · cases none

theorem extend_begins {room : Nat} {min : Precedence} {chain whole : Chain}
    (run : g.extend room min chain c = .ok (some whole) c') : c.ahead ≠ [] := by
  intro ended
  rcases extend_ok.mp run with ⟨_, none, _⟩ | ⟨tight, _⟩
  · cases none
  · rw [Cursor.peek_kind_eq_end.mpr ended] at tight
    cases min <;> exact absurd (by decide) tight

/-- The only place where an expression looks at what follows it. -/
theorem extend (steady : g.Steady tail final) {room : Nat} {min : Precedence} {chain : Chain}
    {r : Option Chain} (run : g.extend room min chain c = .ok r c')
    (last : c'.ahead = [] → Stops tail) (h : Followed tail final c d) :
    Again tail final (g.extend room min chain) r c' d := by
  cases r with
  | none =>
      obtain rfl := extend_stops run
      obtain ⟨loose, _⟩ | ⟨_, e, _, _, none⟩ := extend_ok.mp run
      · refine ⟨d, extend_ok.mpr (.inl ⟨?_, rfl, rfl⟩), h⟩
        by_cases more : c.ahead = []
        · have ahead : d.ahead = tail := by rw [h.ahead, more, List.nil_append]
          have stops := last more
          cases tail with
          | nil =>
              rw [Cursor.peek_kind_eq_end.mpr ahead]
              rwa [Cursor.peek_kind_eq_end.mpr more] at loose
          | cons t ts =>
              rw [Cursor.peek_of_cons ahead, stops t rfl]
              cases min <;> decide
        · rwa [← h.peek more]
      · cases none
  | some whole =>
      have more := extend_begins run
      obtain ⟨_, none, _⟩ | ⟨tight, e, read, fits, same⟩ := extend_ok.mp run
      · cases none
      · have inner : c.peek.kind ≠ .endOfFile := fun ended =>
          more (Cursor.peek_kind_eq_end.mp ended)
        obtain ⟨d', again, there⟩ := steady.continuation inner read last h
        rw [h.peek more] at tight
        exact ⟨d', extend_ok.mpr (.inr ⟨tight, e, again, fits, same⟩), there⟩

theorem chain (steady : g.Steady tail final) {room : Nat} {min : Precedence}
    (run : g.chain room min c = .ok e c') (last : c'.ahead = [] → Stops tail)
    (h : Followed tail final c d) : Again tail final (g.chain room min) e c' d := by
  obtain ⟨first, c₁, read, whole, c₂, loop, rfl, rfl⟩ := chain_ok.mp run
  have ends := iterate_begins loop extend_stops extend_begins
  obtain ⟨d₁, read, there⟩ := steady.operand read (fun ended => last (ends ended)) h
  obtain ⟨d₂, loop, there⟩ :=
    iterate_again loop extend_stops extend_begins steady.extend last there
  exact ⟨d₂, chain_ok.mpr ⟨first, d₁, read, whole, d₂, loop, rfl, rfl⟩, there⟩

/-! ## Statements -/

theorem declaration (steady : g.Steady tail final) (inner : c.peek.kind ≠ .endOfFile)
    (run : g.declaration c = .ok s c') (h : Followed tail final c d) :
    Again tail final g.declaration s c' d := by
  obtain ⟨named, type, c₁, typed, initial, c₂, read, closes, rfl, rfl⟩ := declaration_ok.mp run
  obtain ⟨_, word, there⟩ := h.step rfl inner
  obtain ⟨named, name, there⟩ := there.step named (by decide)
  rcases initialValue_ok.mp read with ⟨mark, e, value, rfl⟩ | ⟨other, changeable, rfl, rfl⟩
  · obtain ⟨d₁, typed, there⟩ := typeAnnotation_again typed
      (Cursor.ahead_ne_nil mark (by decide)) there
    obtain ⟨mark, _, there⟩ := there.step mark (by decide)
    obtain ⟨d₂, value, there⟩ := steady.inside value (Cursor.ahead_ne_nil closes (by decide)) there
    obtain ⟨closes, _, there⟩ := there.step closes (by decide)
    refine ⟨d₂.next, declaration_ok.mpr ⟨named, type, d₁, typed, some e, d₂,
      initialValue_ok.mpr (.inl ⟨mark, e, value, rfl⟩), closes, ?_, rfl⟩, there⟩
    rw [there.spanFrom, word, name]
  · have more := Cursor.ahead_ne_nil closes (by decide)
    obtain ⟨d₁, typed, there⟩ := typeAnnotation_again typed more there
    rw [there.peek more] at other
    obtain ⟨closes, _, there⟩ := there.step closes (by decide)
    refine ⟨d₁.next, declaration_ok.mpr ⟨named, type, d₁, typed, none, d₁,
      initialValue_ok.mpr (.inr ⟨other, by rwa [word], rfl, rfl⟩), closes, ?_, rfl⟩, there⟩
    rw [there.spanFrom, word, name]

theorem parameter (steady : g.Steady tail final) {p : Parameter}
    (run : g.parameter c = .ok p c') (more : c'.ahead ≠ []) (h : Followed tail final c d) :
    Again tail final g.parameter p c' d := by
  obtain ⟨named, type, c₁, typed, default, c₂, read, rfl, rfl⟩ := parameter_ok.mp run
  have inside : c₁.ahead ≠ [] := by
    rcases optionally_ok.mp read with ⟨mark, _⟩ | ⟨_, _, rfl⟩
    · exact Cursor.ahead_ne_nil mark (by decide)
    · exact more
  obtain ⟨named, name, there⟩ := h.step named (by decide)
  obtain ⟨d₁, typed, there⟩ := typeAnnotation_again typed inside there
  obtain ⟨d₂, read, there⟩ := optionally_again (by decide) steady.inside read more there
  exact ⟨d₂, parameter_ok.mpr ⟨named, type, d₁, typed, default, d₂, read, by rw [name], rfl⟩, there⟩

theorem routine (steady : g.Steady tail final) {async : Bool} {r : Routine}
    (run : g.routine async c = .ok r c') (h : Followed tail final c d) :
    Again tail final (g.routine async) r c' d := by
  obtain ⟨named, opens, params, c₁, read, closes, returns, c₂, typed, body, c₃, inside, rfl, rfl⟩ :=
    routine_ok.mp run
  obtain ⟨named, name, there⟩ := h.step named (by decide)
  obtain ⟨opens, _, there⟩ := there.step opens (by decide)
  obtain ⟨d₁, read, there⟩ := separated_again
    (fun run => Cursor.ahead_ne_nil (parameter_ok.mp run).1 (by decide)) steady.parameter read
    (Cursor.ahead_ne_nil closes (by decide)) there
  obtain ⟨closes, _, there⟩ := there.step closes (by decide)
  obtain ⟨d₂, typed, there⟩ := optionally_again (by decide) (fun run _ => typeName_again run) typed
    (block_begins inside) there
  obtain ⟨d₃, inside, there⟩ := steady.block inside there
  exact ⟨d₃, routine_ok.mpr ⟨named, opens, params, d₁, read, closes, returns, d₂, typed, body, d₃,
    inside, by rw [name], rfl⟩, there⟩

theorem function (steady : g.Steady tail final) {async : Bool} {r : Routine}
    (run : g.function async c = .ok r c') (h : Followed tail final c d) :
    Again tail final (g.function async) r c' d := by
  obtain ⟨word, read⟩ := function_ok.mp run
  obtain ⟨word, _, there⟩ := h.step word (by decide)
  obtain ⟨d', read, there⟩ := steady.routine read there
  exact ⟨d', function_ok.mpr ⟨word, read⟩, there⟩

theorem functionStatement (steady : g.Steady tail final)
    (run : g.functionStatement c = .ok s c') (h : Followed tail final c d) :
    Again tail final g.functionStatement s c' d := by
  obtain ⟨r, c₁, read, rfl, rfl⟩ := functionStatement_ok.mp run
  obtain ⟨_, word, _⟩ := h.step (function_ok.mp read).1 (by decide)
  obtain ⟨d', again, there⟩ := steady.function read h
  refine ⟨d', functionStatement_ok.mpr ⟨r, d', again, ?_, rfl⟩, there⟩
  rw [there.spanFrom, Cursor.span, Cursor.span, word]

theorem asyncStatement (steady : g.Steady tail final) (inner : c.peek.kind ≠ .endOfFile)
    (run : g.asyncStatement c = .ok s c') (h : Followed tail final c d) :
    Again tail final g.asyncStatement s c' d := by
  obtain ⟨r, c₁, read, rfl, rfl⟩ := asyncStatement_ok.mp run
  obtain ⟨_, word, there⟩ := h.step rfl inner
  obtain ⟨d', again, there⟩ := steady.function read there
  refine ⟨d', asyncStatement_ok.mpr ⟨r, d', again, ?_, rfl⟩, there⟩
  rw [there.spanFrom, Cursor.span, Cursor.span, word]

/-- A routine behind a keyword that may be left out. -/
theorem routineBehind (steady : g.Steady tail final) {async : Bool} {r : Routine}
    (run : g.routine async (if c.peek.kind = .functionWord then c.next else c) = .ok r c')
    (h : Followed tail final c d) : c.ahead ≠ [] ∧
      ∃ d', g.routine async (if d.peek.kind = .functionWord then d.next else d) = .ok r d' ∧
        Followed tail final c' d' := by
  by_cases word : c.peek.kind = .functionWord
  · obtain ⟨word', _, there⟩ := h.step word (by decide)
    rw [if_pos word] at run
    rw [if_pos word']
    exact ⟨Cursor.ahead_ne_nil word (by decide), steady.routine run there⟩
  · rw [if_neg word] at run
    have more := Cursor.ahead_ne_nil (routine_ok.mp run).1 (by decide)
    rw [h.peek more] at word
    rw [if_neg word]
    exact ⟨more, steady.routine run h⟩

theorem method (steady : g.Steady tail final) {r : Routine} (run : g.method c = .ok r c')
    (h : Followed tail final c d) : Again tail final g.method r c' d := by
  obtain ⟨async, c₁, accepted, read⟩ := method_ok.mp run
  rcases accept_ok.mp accepted with ⟨word, rfl, rfl⟩ | ⟨other, rfl, rfl⟩
  · obtain ⟨word, _, there⟩ := h.step word (by decide)
    obtain ⟨_, d', again, behind⟩ := steady.routineBehind read there
    exact ⟨d', method_ok.mpr ⟨true, d.next, accept_ok.mpr (.inl ⟨word, rfl, rfl⟩), again⟩, behind⟩
  · obtain ⟨more, d', again, behind⟩ := steady.routineBehind read h
    rw [h.peek more] at other
    exact ⟨d', method_ok.mpr ⟨false, d, accept_ok.mpr (.inr ⟨other, rfl, rfl⟩), again⟩, behind⟩

theorem classStatement (steady : g.Steady tail final) (inner : c.peek.kind ≠ .endOfFile)
    (run : g.classStatement c = .ok s c') (h : Followed tail final c d) :
    Again tail final g.classStatement s c' d := by
  obtain ⟨named, opens, methods, c₁, read, closes, rfl, rfl⟩ := classStatement_ok.mp run
  obtain ⟨_, word, there⟩ := h.step rfl inner
  obtain ⟨named, name, there⟩ := there.step named (by decide)
  obtain ⟨opens, _, there⟩ := there.step opens (by decide)
  obtain ⟨d₁, read, there⟩ := items_again (fun run _ => steady.method run) read
    (Cursor.ahead_ne_nil closes (by decide)) there
  obtain ⟨closes, _, there⟩ := there.step closes (by decide)
  refine ⟨d₁.next, classStatement_ok.mpr ⟨named, opens, methods, d₁, read, closes, ?_, rfl⟩, there⟩
  rw [there.spanFrom, Cursor.span, Cursor.span, word, name]

theorem alternative (steady : g.Steady tail final) (run : g.alternative c = .ok s c')
    (more : c'.ahead ≠ []) (h : Followed tail final c d) :
    Again tail final g.alternative s c' d := by
  rcases alternative_ok.mp run with ⟨word, read⟩ | ⟨other, read⟩
  · obtain ⟨word, _, _⟩ := h.step word (by decide)
    obtain ⟨d', again, there⟩ := steady.statement read more h
    exact ⟨d', alternative_ok.mpr (.inl ⟨word, again⟩), there⟩
  · obtain ⟨body, c₁, inside, _⟩ := blockStatement_ok.mp read
    obtain ⟨d', again, there⟩ := steady.blockStatement read h
    rw [h.peek (block_begins inside)] at other
    exact ⟨d', alternative_ok.mpr (.inr ⟨other, again⟩), there⟩

theorem conditional (steady : g.Steady tail final) (inner : c.peek.kind ≠ .endOfFile)
    (run : g.conditional c = .ok s c') (more : c'.ahead ≠ []) (h : Followed tail final c d) :
    Again tail final g.conditional s c' d := by
  obtain ⟨condition, c₁, first, body, c₂, inside, otherwise, c₃, last, rfl, rfl⟩ :=
    conditional_ok.mp run
  obtain ⟨_, word, there⟩ := h.step rfl inner
  obtain ⟨d₁, first, there⟩ := steady.inside first (block_begins inside) there
  obtain ⟨d₂, inside, there⟩ := steady.block inside there
  obtain ⟨d₃, last, there⟩ := optionally_again (by decide) steady.alternative last more there
  refine ⟨d₃, conditional_ok.mpr ⟨condition, d₁, first, body, d₂, inside, otherwise, d₃, last, ?_,
    rfl⟩, there⟩
  rw [there.spanFrom, Cursor.span, Cursor.span, word]

theorem handler (steady : g.Steady tail final) {r : Handler} (run : g.handler c = .ok r c')
    (h : Followed tail final c d) : Again tail final g.handler r c' d := by
  obtain ⟨binding, c₁, bound, body, c₂, inside, rfl, rfl⟩ := handler_ok.mp run
  have name : ∀ {c c' d a}, caughtName c = .ok a c' → c'.ahead ≠ [] → Followed tail final c d →
      Again tail final caughtName a c' d := by
    intro c c' d a run _ h
    obtain ⟨named, closes, rfl, rfl⟩ := caughtName_ok.mp run
    obtain ⟨named, name, there⟩ := h.step named (by decide)
    obtain ⟨closes, _, there⟩ := there.step closes (by decide)
    exact ⟨d.next.next, caughtName_ok.mpr ⟨named, closes, by rw [name], rfl⟩, there⟩
  obtain ⟨d₁, bound, there⟩ := optionally_again (by decide) name bound (block_begins inside) h
  obtain ⟨d₂, inside, there⟩ := steady.block inside there
  exact ⟨d₂, handler_ok.mpr ⟨binding, d₁, bound, body, d₂, inside, rfl, rfl⟩, there⟩

theorem attempt (steady : g.Steady tail final) (inner : c.peek.kind ≠ .endOfFile)
    (run : g.attempt c = .ok s c') (more : c'.ahead ≠ []) (h : Followed tail final c d) :
    Again tail final g.attempt s c' d := by
  obtain ⟨body, c₁, inside, handler, c₂, caught, cleanup, c₃, cleaned, either, rfl, rfl⟩ :=
    attempt_ok.mp run
  have between : c₂.ahead ≠ [] := by
    rcases optionally_ok.mp cleaned with ⟨word, _⟩ | ⟨_, _, rfl⟩
    · exact Cursor.ahead_ne_nil word (by decide)
    · exact more
  obtain ⟨_, word, there⟩ := h.step rfl inner
  obtain ⟨d₁, inside, there⟩ := steady.block inside there
  obtain ⟨d₂, caught, there⟩ := optionally_again (by decide) (fun run _ => steady.handler run)
    caught between there
  obtain ⟨d₃, cleaned, there⟩ := optionally_again (by decide) (fun run _ => steady.block run)
    cleaned more there
  refine ⟨d₃, attempt_ok.mpr ⟨body, d₁, inside, handler, d₂, caught, cleanup, d₃, cleaned, either,
    ?_, rfl⟩, there⟩
  rw [there.spanFrom, Cursor.span, Cursor.span, word]

theorem returning (steady : g.Steady tail final) (inner : c.peek.kind ≠ .endOfFile)
    (run : g.returning c = .ok s c') (h : Followed tail final c d) :
    Again tail final g.returning s c' d := by
  obtain ⟨value, c₁, read, closes, rfl, rfl⟩ := returning_ok.mp run
  obtain ⟨_, word, there⟩ := h.step rfl inner
  have again : Again tail final g.returnValue value c₁ d.next := by
    rcases returnValue_ok.mp read with ⟨mark, rfl, rfl⟩ | ⟨other, e, inside, rfl⟩
    · obtain ⟨mark, _, _⟩ := there.step mark (by decide)
      exact ⟨d.next, returnValue_ok.mpr (.inl ⟨mark, rfl, rfl⟩), there⟩
    · obtain ⟨d', again, behind⟩ :=
        steady.inside inside (Cursor.ahead_ne_nil closes (by decide)) there
      rw [there.peek (steady.begins inside)] at other
      exact ⟨d', returnValue_ok.mpr (.inr ⟨other, e, again, rfl⟩), behind⟩
  obtain ⟨d₁, read, there⟩ := again
  obtain ⟨closes, _, there⟩ := there.step closes (by decide)
  refine ⟨d₁.next, returning_ok.mpr ⟨value, d₁, read, closes, ?_, rfl⟩, there⟩
  rw [there.spanFrom, Cursor.span, Cursor.span, word]

theorem expressionStatement (steady : g.Steady tail final)
    (run : g.expressionStatement c = .ok s c') (more : c'.ahead ≠ [])
    (h : Followed tail final c d) : Again tail final g.expressionStatement s c' d := by
  obtain ⟨value, c₁, read, ending⟩ := expressionStatement_ok.mp run
  have span : d.span = c.span := congrArg Token.span (h.peek (steady.begins read)).symm
  have inner : c₁.ahead ≠ [] := by
    rcases ending with ⟨mark, _⟩ | ⟨_, _, _, rfl⟩
    · exact Cursor.ahead_ne_nil mark (by decide)
    · exact more
  obtain ⟨d₁, read, there⟩ := steady.inside read inner h
  rcases ending with ⟨mark, rfl, rfl⟩ | ⟨other, ended, rfl, rfl⟩
  · obtain ⟨mark, _, there⟩ := there.step mark (by decide)
    refine ⟨d₁.next, expressionStatement_ok.mpr ⟨value, d₁, read, .inl ⟨mark, ?_, rfl⟩⟩, there⟩
    rw [there.spanFrom, span]
  · rw [there.peek more] at other
    refine ⟨d₁, expressionStatement_ok.mpr
      ⟨value, d₁, read, .inr ⟨other, ended, ?_, rfl⟩⟩, there⟩
    rw [there.spanFrom, span]

theorem anyStatement (steady : g.Steady tail final) (run : g.anyStatement c = .ok s c')
    (more : c'.ahead ≠ []) (h : Followed tail final c d) :
    Again tail final g.anyStatement s c' d := by
  have ways := anyStatement_ok.mp run
  have inner : c.peek.kind ≠ .endOfFile := by
    rcases ways with ⟨kind, _⟩ | ⟨kind, _⟩ | ⟨kind, _⟩ | ⟨kind | kind, _⟩ | ⟨kind, _⟩ | ⟨kind, _⟩ |
      ⟨kind, _⟩ | ⟨kind, _⟩ | ⟨_, read⟩
    rotate_right
    · obtain ⟨value, c₁, read, _⟩ := expressionStatement_ok.mp read
      exact fun ended => steady.begins read (Cursor.peek_kind_eq_end.mp ended)
    all_goals simp [kind]
  -- The reader is chosen by the first token, which both cursors see.
  have same := h.peek (Cursor.ahead_ne_nil rfl inner)
  simp only [Again, anyStatement_ok, ← same]
  rcases ways with ⟨kind, read⟩ | ⟨kind, read⟩ | ⟨kind, read⟩ | ⟨kind, read⟩ | ⟨kind, read⟩ |
    ⟨kind, read⟩ | ⟨kind, read⟩ | ⟨kind, read⟩ | ⟨kind, read⟩
  · obtain ⟨d', again, there⟩ := steady.functionStatement read h
    exact ⟨d', .inl ⟨kind, again⟩, there⟩
  · obtain ⟨d', again, there⟩ := steady.asyncStatement inner read h
    exact ⟨d', .inr (.inl ⟨kind, again⟩), there⟩
  · obtain ⟨d', again, there⟩ := steady.classStatement inner read h
    exact ⟨d', .inr (.inr (.inl ⟨kind, again⟩)), there⟩
  · obtain ⟨d', again, there⟩ := steady.declaration inner read h
    exact ⟨d', .inr (.inr (.inr (.inl ⟨kind, again⟩))), there⟩
  · obtain ⟨d', again, there⟩ := steady.conditional inner read more h
    exact ⟨d', .inr (.inr (.inr (.inr (.inl ⟨kind, again⟩)))), there⟩
  · obtain ⟨d', again, there⟩ := steady.attempt inner read more h
    exact ⟨d', .inr (.inr (.inr (.inr (.inr (.inl ⟨kind, again⟩))))), there⟩
  · obtain ⟨d', again, there⟩ := steady.returning inner read h
    exact ⟨d', .inr (.inr (.inr (.inr (.inr (.inr (.inl ⟨kind, again⟩)))))), there⟩
  · obtain ⟨d', again, there⟩ := steady.blockStatement read h
    exact ⟨d', .inr (.inr (.inr (.inr (.inr (.inr (.inr (.inl ⟨kind, again⟩))))))), there⟩
  · obtain ⟨d', again, there⟩ := steady.expressionStatement read more h
    exact ⟨d', .inr (.inr (.inr (.inr (.inr (.inr (.inr (.inr ⟨kind, again⟩))))))), there⟩

theorem nest (steady : g.Steady tail final) (room : Nat) : (g.nest room).Steady tail final where
  begins run := by
    obtain ⟨first, c₁, read, _⟩ := chain_ok.mp run
    exact Cursor.ahead_ne_nil rfl (operand_begins read)
  statement run more h := steady.anyStatement run more h
  expression run last h := steady.chain run last h

end Steady

theorem steady_ofRoom (tail : List Token) (final : Token) (room : Nat) :
    (ofRoom room).Steady tail final := by
  induction room with
  | zero => exact ⟨nofun, nofun, nofun⟩
  | succ room ih => exact ih.nest room

end Grammar

end TwoScript
