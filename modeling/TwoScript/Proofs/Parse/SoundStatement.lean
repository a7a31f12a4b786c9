import TwoScript.Parse.Program
import TwoScript.Proofs.Parse.Soundness

/-!
# Statements that were read

The statement forms keep a grammar sound, and with them every grammar built by levels
is: `Grammar.sound_ofRoom`.
-/

namespace TwoScript

open TwoScript.Parser

namespace Grammar

variable {g : Grammar} {c c' : Cursor}

/-- What may stand behind a mark reaches as far as it reads. -/
theorem optionally_reaches {α : Type} {kind : Kind} {p : Parser α} {P : α → Prop}
    {r : Option α} (lexed : c.Lexed) (inner : kind ≠ .endOfFile)
    (reads : ∀ {c c' : Cursor} {a : α}, c.Lexed → p c = .ok a c' → c.Advances c' ∧ P a)
    (h : optionally kind p c = .ok r c') : c.Reaches c' ∧ ∀ a, r = some a → P a := by
  rcases optionally_ok.mp h with ⟨mark, a, run, rfl⟩ | ⟨_, rfl, rfl⟩
  · obtain ⟨further, holds⟩ := reads lexed.next run
    exact ⟨((Cursor.advances_next mark inner).trans further.reaches).reaches, by simpa using holds⟩
  · exact ⟨.refl _, by simp⟩

theorem typeName_advances {name : String} (h : typeName c = .ok name c') : c.Advances c' := by
  obtain ⟨name | null, _, rfl⟩ := typeName_ok.mp h
  · exact Cursor.advances_next name (by decide)
  · exact Cursor.advances_next null (by decide)

theorem typeName_reaches {kind : Kind} {r : Option String} (lexed : c.Lexed)
    (inner : kind ≠ .endOfFile) (h : optionally kind typeName c = .ok r c') : c.Reaches c' :=
  (optionally_reaches (P := fun _ => True) lexed inner
    (fun _ h => ⟨typeName_advances h, trivial⟩) h).1

namespace Sound

/-- An expression that stands alone. -/
theorem value (sound : g.Sound) {c c' : Cursor} {e : Expr} (lexed : c.Lexed)
    (h : g.expression .lowest c = .ok e c') : c.Advances c' ∧ e.Every grammatical := by
  obtain ⟨ts, read, _⟩ := sound.expression lexed (by decide) h
  exact ⟨read.advances, read.every⟩

/-! ## Variables -/

theorem initialValue (sound : g.Sound) {constant : Bool} {r : Option Expr} (lexed : c.Lexed)
    (h : g.initialValue constant c = .ok r c') :
    c.Reaches c' ∧ (∀ e, r = some e → e.Every grammatical) ∧
      (constant = true → r.isSome = true) := by
  rcases initialValue_ok.mp h with ⟨mark, e, run, rfl⟩ | ⟨_, rfl, rfl, rfl⟩
  · obtain ⟨further, every⟩ := sound.value lexed.next run
    refine ⟨((Cursor.advances_next mark (by decide)).trans further.reaches).reaches, ?_, by simp⟩
    simpa using every
  · exact ⟨.refl _, by simp, by simp⟩

theorem declaration (sound : g.Sound) {s : Statement} (lexed : c.Lexed)
    (begins : c.peek.kind ≠ .endOfFile) (h : g.declaration c = .ok s c') :
    c.Advances c' ∧ s.Every grammatical := by
  obtain ⟨name, type, c₁, annotation, initial, c₂, run, closes, rfl, rfl⟩ := declaration_ok.mp h
  have typed := typeName_reaches lexed.next.next (by decide) annotation
  obtain ⟨reaches, every, needed⟩ :=
    sound.initialValue (typed.lexed lexed.next.next) run
  refine ⟨?_, ?_⟩
  · exact (Cursor.advances_next rfl begins).trans
      ((Cursor.advances_next name (by decide)).reaches.trans
        (typed.trans (reaches.trans (Cursor.advances_next closes (by decide)).reaches)))
  · have formed : isName c.next.peek.text = true := lexed.next.isName name
    cases initial with
    | none => exact ⟨formed, needed⟩
    | some e => exact ⟨⟨formed, needed⟩, every e rfl⟩

/-! ## Routines and classes -/

theorem parameter (sound : g.Sound) {p : Parameter} (lexed : c.Lexed)
    (h : g.parameter c = .ok p c') :
    c.Advances c' ∧ p.Formed ∧ ∀ e, p.default = some e → e.Every grammatical := by
  obtain ⟨name, type, c₁, annotation, default, c₂, run, rfl, rfl⟩ := parameter_ok.mp h
  have typed := typeName_reaches lexed.next (by decide) annotation
  have reads : ∀ {c c' : Cursor} {e : Expr}, c.Lexed → g.expression .assignment c = .ok e c' →
      c.Advances c' ∧ e.isAssignment = false ∧ e.Every grammatical := by
    intro c c' e lexed h
    obtain ⟨ts, read, tighter, _⟩ := sound.expression lexed (by decide) h
    refine ⟨read.advances, ?_, read.every⟩
    cases e with
    | assign => cases Nat.lt_irrefl _ tighter
    | _ => rfl
  obtain ⟨reaches, holds⟩ := optionally_reaches (typed.lexed lexed.next) (by decide) reads run
  refine ⟨?_, ⟨lexed.isName name, fun e he => (holds e he).1⟩, fun e he => (holds e he).2⟩
  exact (Cursor.advances_next name (by decide)).trans (typed.trans reaches)

theorem routine (sound : g.Sound) {async : Bool} {r : Routine} (lexed : c.Lexed)
    (h : g.routine async c = .ok r c') :
    c.Advances c' ∧ r.Formed ∧ r.Every grammatical := by
  obtain ⟨name, opens, params, c₁, run, closes, returns, c₂, type, body, c₃, block, rfl, rfl⟩ :=
    routine_ok.mp h
  obtain ⟨reaches, all⟩ := lexed.next.next.separated sound.parameter run
  have lexed₁ := reaches.lexed lexed.next.next
  have typed := typeName_reaches lexed₁.next (by decide) type
  obtain ⟨further, every⟩ := sound.block (typed.lexed lexed₁.next) block
  refine ⟨?_, ⟨lexed.isName name, fun p hp => (all p hp).1⟩,
    paramsEvery_iff.mpr fun p hp => (all p hp).2, every⟩
  exact (Cursor.advances_next name (by decide)).trans
    ((Cursor.advances_next opens (by decide)).reaches.trans
      (reaches.trans ((Cursor.advances_next closes (by decide)).reaches.trans
        (typed.trans further.reaches))))

theorem function (sound : g.Sound) {async : Bool} {r : Routine} (lexed : c.Lexed)
    (h : g.function async c = .ok r c') :
    c.Advances c' ∧ r.Formed ∧ r.Every grammatical := by
  obtain ⟨word, run⟩ := function_ok.mp h
  obtain ⟨further, formed, every⟩ := sound.routine lexed.next run
  exact ⟨(Cursor.advances_next word (by decide)).trans further.reaches, formed, every⟩

theorem method (sound : g.Sound) {r : Routine} (lexed : c.Lexed)
    (h : g.method c = .ok r c') : c.Advances c' ∧ r.Formed ∧ r.Every grammatical := by
  obtain ⟨async, c₁, accepted, run⟩ := method_ok.mp h
  have first : c.Reaches c₁ := by
    rcases accept_ok.mp accepted with ⟨word, _, rfl⟩ | ⟨_, _, rfl⟩
    · exact (Cursor.advances_next word (by decide)).reaches
    · exact .refl _
  have second : c₁.Reaches (if c₁.peek.kind = .functionWord then c₁.next else c₁) := by
    split
    · rename_i word
      exact (Cursor.advances_next word (by decide)).reaches
    · exact .refl _
  obtain ⟨further, formed, every⟩ := sound.routine ((first.trans second).lexed lexed) run
  exact ⟨(first.trans second).trans_advances further, formed, every⟩

theorem classStatement (sound : g.Sound) {s : Statement} (lexed : c.Lexed)
    (begins : c.peek.kind ≠ .endOfFile) (h : g.classStatement c = .ok s c') :
    c.Advances c' ∧ s.Every grammatical := by
  obtain ⟨name, opens, methods, c₁, run, closes, rfl, rfl⟩ := classStatement_ok.mp h
  obtain ⟨reaches, all⟩ := lexed.next.next.next.items sound.method run
  refine ⟨?_, ⟨lexed.next.isName name, fun m hm => (all m hm).1⟩,
    routinesEvery_iff.mpr fun m hm => (all m hm).2⟩
  exact (Cursor.advances_next rfl begins).trans
    ((Cursor.advances_next name (by decide)).reaches.trans
      ((Cursor.advances_next opens (by decide)).reaches.trans
        (reaches.trans (Cursor.advances_next closes (by decide)).reaches)))

/-! ## Control flow -/

theorem alternative (sound : g.Sound) {s : Statement} (lexed : c.Lexed)
    (h : g.alternative c = .ok s c') :
    c.Advances c' ∧ (s.isConditional = true ∨ s.isBlock = true) ∧ s.Every grammatical := by
  rcases alternative_ok.mp h with ⟨word, run⟩ | ⟨_, run⟩
  · obtain ⟨further, every, isConditional⟩ := sound.statement lexed run
    exact ⟨further, .inl (isConditional word), every⟩
  · obtain ⟨further, every, isBlock⟩ := sound.blockStatement lexed run
    exact ⟨further, .inr isBlock, every⟩

theorem conditional (sound : g.Sound) {s : Statement} (lexed : c.Lexed)
    (begins : c.peek.kind ≠ .endOfFile) (h : g.conditional c = .ok s c') :
    c.Advances c' ∧ s.Every grammatical ∧ s.isConditional = true := by
  obtain ⟨condition, c₁, run, body, c₂, block, otherwise, c₃, last, rfl, rfl⟩ :=
    conditional_ok.mp h
  obtain ⟨first, condition⟩ := sound.value lexed.next run
  have lexed₁ := first.reaches.lexed lexed.next
  obtain ⟨second, body⟩ := sound.block lexed₁ block
  obtain ⟨third, holds⟩ :=
    optionally_reaches (second.reaches.lexed lexed₁) (by decide) sound.alternative last
  refine ⟨?_, ?_, rfl⟩
  · exact (Cursor.advances_next rfl begins).trans
      (first.reaches.trans (second.reaches.trans third))
  · have formed := fun s hs => (holds s hs).1
    cases otherwise with
    | none => exact ⟨formed, condition.ungrouped, body⟩
    | some s => exact ⟨formed, condition.ungrouped, body, (holds s rfl).2⟩

theorem handler (sound : g.Sound) {k : Handler} (lexed : c.Lexed)
    (h : g.handler c = .ok k c') :
    c.Advances c' ∧ (∀ name, k.binding = some name → isName name = true) ∧
      bodyEvery grammatical k.body := by
  obtain ⟨binding, c₁, run, body, c₂, block, rfl, rfl⟩ := handler_ok.mp h
  have reads : ∀ {c c' : Cursor} {name : String}, c.Lexed → caughtName c = .ok name c' →
      c.Advances c' ∧ isName name = true := by
    intro c c' name lexed h
    obtain ⟨kind, close, rfl, rfl⟩ := caughtName_ok.mp h
    exact ⟨(Cursor.advances_next kind (by decide)).trans
      (Cursor.advances_next close (by decide)).reaches, lexed.isName kind⟩
  obtain ⟨reaches, named⟩ := optionally_reaches lexed (by decide) reads run
  obtain ⟨further, every⟩ := sound.block (reaches.lexed lexed) block
  exact ⟨reaches.trans_advances further, named, every⟩

theorem attempt (sound : g.Sound) {s : Statement} (lexed : c.Lexed)
    (begins : c.peek.kind ≠ .endOfFile) (h : g.attempt c = .ok s c') :
    c.Advances c' ∧ s.Every grammatical := by
  obtain ⟨body, c₁, block, handler, c₂, caught, cleanup, c₃, last, some, rfl, rfl⟩ :=
    attempt_ok.mp h
  obtain ⟨first, every⟩ := sound.block lexed.next block
  have lexed₁ := first.reaches.lexed lexed.next
  obtain ⟨second, handlers⟩ := optionally_reaches lexed₁ (by decide) sound.handler caught
  obtain ⟨third, cleanups⟩ :=
    optionally_reaches (second.lexed lexed₁) (by decide) sound.block last
  refine ⟨?_, ⟨some, fun k hk => (handlers k hk).1⟩, every, ?_, ?_⟩
  · exact (Cursor.advances_next rfl begins).trans (first.reaches.trans (second.trans third))
  · cases handler with
    | none => trivial
    | some k =>
        obtain ⟨binding, body⟩ := k
        exact (handlers _ rfl).2
  · cases cleanup with
    | none => trivial
    | some body => exact cleanups body rfl

theorem returning (sound : g.Sound) {s : Statement} (lexed : c.Lexed)
    (begins : c.peek.kind ≠ .endOfFile) (h : g.returning c = .ok s c') :
    c.Advances c' ∧ s.Every grammatical := by
  obtain ⟨value, c₁, run, closes, rfl, rfl⟩ := returning_ok.mp h
  have last := (Cursor.advances_next closes (by decide)).reaches
  rcases returnValue_ok.mp run with ⟨_, rfl, rfl⟩ | ⟨_, e, inside, rfl⟩
  · exact ⟨(Cursor.advances_next rfl begins).trans last, trivial⟩
  · obtain ⟨further, every⟩ := sound.value lexed.next inside
    exact ⟨(Cursor.advances_next rfl begins).trans (further.reaches.trans last), trivial, every⟩

theorem expressionStatement (sound : g.Sound) {s : Statement} (lexed : c.Lexed)
    (h : g.expressionStatement c = .ok s c') : c.Advances c' ∧ s.Every grammatical := by
  obtain ⟨value, c₁, run, ended⟩ := expressionStatement_ok.mp h
  obtain ⟨further, every⟩ := sound.value lexed run
  rcases ended with ⟨mark, rfl, rfl⟩ | ⟨_, _, rfl, rfl⟩
  · exact ⟨further.trans (Cursor.advances_next mark (by decide)).reaches, trivial, every⟩
  · exact ⟨further, trivial, every⟩

/-! ## Levels -/

theorem anyStatement (sound : g.Sound) {s : Statement} (lexed : c.Lexed)
    (h : g.anyStatement c = .ok s c') :
    c.Advances c' ∧ s.Every grammatical ∧ (c.peek.kind = .ifWord → s.isConditional = true) := by
  rcases anyStatement_ok.mp h with ⟨begins, h⟩ | ⟨begins, h⟩ | ⟨begins, h⟩ | ⟨begins, h⟩ |
    ⟨begins, h⟩ | ⟨begins, h⟩ | ⟨begins, h⟩ | ⟨begins, h⟩ | ⟨begins, h⟩
  · obtain ⟨r, c₁, run, rfl, rfl⟩ := functionStatement_ok.mp h
    obtain ⟨further, formed, every⟩ := sound.function lexed run
    exact ⟨further, ⟨formed, every⟩, by simp [begins]⟩
  · obtain ⟨r, c₁, run, rfl, rfl⟩ := asyncStatement_ok.mp h
    obtain ⟨further, formed, every⟩ := sound.function lexed.next run
    exact ⟨(Cursor.advances_next begins (by decide)).trans further.reaches, ⟨formed, every⟩,
      by simp [begins]⟩
  · obtain ⟨further, every⟩ := sound.classStatement lexed (by simp [begins]) h
    exact ⟨further, every, by simp [begins]⟩
  · obtain ⟨further, every⟩ := sound.declaration lexed (by rcases begins with h | h <;> simp [h]) h
    exact ⟨further, every, by rcases begins with h | h <;> simp [h]⟩
  · obtain ⟨further, every, isConditional⟩ := sound.conditional lexed (by simp [begins]) h
    exact ⟨further, every, fun _ => isConditional⟩
  · obtain ⟨further, every⟩ := sound.attempt lexed (by simp [begins]) h
    exact ⟨further, every, by simp [begins]⟩
  · obtain ⟨further, every⟩ := sound.returning lexed (by simp [begins]) h
    exact ⟨further, every, by simp [begins]⟩
  · obtain ⟨further, every, _⟩ := sound.blockStatement lexed h
    exact ⟨further, every, by simp [begins]⟩
  · obtain ⟨further, every⟩ := sound.expressionStatement lexed h
    refine ⟨further, every, fun word => ?_⟩
    simp [opensStatement, word] at begins

theorem nest (sound : g.Sound) (room : Nat) : (g.nest room).Sound where
  statement := sound.anyStatement
  expression := sound.chain

end Sound

/-- Every grammar built by levels is sound. -/
theorem sound_ofRoom (room : Nat) : (ofRoom room).Sound := by
  induction room with
  | zero =>
      constructor
      · intro c c' s _ h
        cases h
      · intro c c' min e _ _ h
        cases h
  | succ room ih => exact ih.nest room

/-- Every statement of a program without errors is grammatical. -/
theorem Sound.program {g : Grammar} (sound : g.Sound) {c : Cursor} (lexed : c.Lexed)
    (ok : (programFrom g c).1.isOk = true) :
    ∀ s ∈ (programFrom g c).1.statements, s.Every grammatical := by
  induction length : c.ahead.length using Nat.strongRecOn generalizing c with
  | ind n ih =>
      rw [programFrom] at ok ⊢
      by_cases ends : c.atEnd = true
      · simp [ends, Program.empty]
      · rw [if_neg ends] at ok ⊢
        cases run : g.statement c with
        | error e c' =>
            simp only [statementOrFailure, run] at ok
            split at ok <;> simp [Program.isOk, Program.push] at ok
        | ok s c' =>
            obtain ⟨further, every, _⟩ := sound.statement lexed run
            have shorter := further.length_lt
            simp only [statementOrFailure, run, shorter, if_true] at ok ⊢
            have rest := ih c'.ahead.length (by omega) (further.reaches.lexed lexed)
              (by simpa [Program.isOk, Program.push] using ok) rfl
            intro t ht
            rcases List.mem_cons.mp ht with rfl | later
            · exact every
            · exact rest t later

/-- Wherever an expression is read in a text, the tokens it took are the ones it is
written with, and every operator in it stands on the ladder. -/
theorem expression_takes_yield {place : Place} {source : List Char} {room : Nat}
    {c c' : Cursor} {e : Expr} (reached : (Cursor.ofTokens (tokensFrom place source)).Reaches c)
    (h : (ofRoom room).expression .lowest c = .ok e c') :
    ∃ tokens, c.ahead = tokens ++ c'.ahead ∧ e.Yields (tokens.map Token.shape) ∧
      e.Every (.ofExpr Expr.Laddered) := by
  obtain ⟨_, _, lexed⟩ := Cursor.ofTokens_tokensFrom place source
  obtain ⟨ts, read, _⟩ := (sound_ofRoom room).expression (reached.lexed lexed) (by decide) h
  obtain ⟨tokens, ahead, rfl⟩ := read.taken.ahead_eq
  have weaker : grammatical.Implies (.ofExpr Expr.Laddered) :=
    ⟨fun _ h => h.1, fun _ _ => trivial, fun _ _ => trivial⟩
  exact ⟨tokens, ahead, read.yields, Expr.Every.mono weaker e read.every⟩

/-- The difference keeps the product on its right and stops in front of the semicolon. -/
theorem expression_takes_yield_difference :
    ∃ e c', (ofRoom 8).expression .lowest
        (Cursor.ofTokens (tokensFrom .first "a - b * c(d);".toList)) = .ok e c' ∧
      ∃ tokens, (Cursor.ofTokens (tokensFrom .first "a - b * c(d);".toList)).ahead =
          tokens ++ c'.ahead ∧
        e.Yields (tokens.map Token.shape) ∧ e.Every (.ofExpr Expr.Laddered) := by
  have run : (ofRoom 8).expression .lowest
      (Cursor.ofTokens (tokensFrom .first "a - b * c(d);".toList)) =
      .ok (.binary ⟨0, 12, 1⟩ .subtract (.ident ⟨0, 1, 1⟩ "a")
        (.binary ⟨4, 12, 1⟩ .multiply (.ident ⟨4, 5, 1⟩ "b")
          (.call ⟨8, 12, 1⟩ (.ident ⟨8, 9, 1⟩ "c") [.ident ⟨10, 11, 1⟩ "d"])))
        ⟨some ⟨.rightParen, ")", ⟨11, 12, 1⟩, none⟩, [⟨.semicolon, ";", ⟨12, 13, 1⟩, none⟩],
          ⟨.endOfFile, "", ⟨13, 13, 1⟩, none⟩, by simp, rfl⟩ := by
    with_unfolding_all rfl
  exact ⟨_, _, run, expression_takes_yield (.refl _) run⟩

end Grammar

/-- The statements of a text that is read without errors are as the grammar has them. -/
theorem grammatical_of_parse {source : String} (ok : (parse source).isOk = true) :
    bodyEvery grammatical (parse source).statements := by
  obtain ⟨_, _, lexed⟩ := Cursor.ofTokens_tokensFrom .first source.toList
  exact bodyEvery_iff.mpr ((Grammar.sound_ofRoom maxNesting).program lexed ok)

end TwoScript
