import TwoScript.Proofs.Parse.Faults

/-!
# Errors that no text can cause

The errors of the branches that only guard against unfaithful tokens are known by their
messages. No text causes one of them, neither directly nor inside a template, since all its
tokens are faithful and the tables of operators agree: `guards_unreached`.
-/

namespace TwoScript

/-! ## Messages -/

/-- A message of a branch that guards against tokens that no text has. -/
def GuardMessage (message : String) : Prop :=
  (∃ text, message = "invalid expression: `" ++ text ++ "` has no literal value") ∨
    message = "invalid expression: expected a number after `-`" ∨
    ∃ found, message = "expected operator, found `" ++ found ++ "`"

theorem GuardMessage.chars {message : String} (h : GuardMessage message) :
    (∃ text, message.toList =
        "invalid expression: `".toList ++ text ++ "` has no literal value".toList) ∨
      message.toList = "invalid expression: expected a number after `-`".toList ∨
      ∃ found, message.toList = "expected operator, found `".toList ++ found ++ "`".toList := by
  rcases h with ⟨text, rfl⟩ | rfl | ⟨found, rfl⟩
  · exact .inl ⟨text.toList, by rw [String.toList_append, String.toList_append]⟩
  · exact .inr (.inl rfl)
  · exact .inr (.inr ⟨found.toList, by rw [String.toList_append, String.toList_append]⟩)

/-- An operator is the only thing expected whose name begins with this letter. -/
theorem Expectation.text_begins (expected : Expectation) :
    ∃ c rest, expected.text.toList = c :: rest ∧ (c = 'o' → expected = .operator) := by
  cases expected <;> exact ⟨_, _, rfl, by decide⟩

namespace ParseError

theorem eq_operator_of_guardMessage {expected : Expectation} {found : String} {span : Span}
    (h : GuardMessage (unexpected expected found span).message) : expected = .operator := by
  change GuardMessage ("expected " ++ expected.text ++ ", found `" ++ found ++ "`") at h
  obtain ⟨c, rest, text, only⟩ := expected.text_begins
  apply only
  rcases h.chars with ⟨text', same⟩ | same | ⟨found', same⟩
  · simp at same
  · simp at same
  · have tenth := congrArg (fun chars => chars[9]?) same
    simpa [text] using tenth

theorem not_guardMessage_lexical (e : LexicalError) : ¬GuardMessage (lexical e).message := by
  obtain ⟨fault, text, span⟩ := e
  intro h
  change GuardMessage (fault.message ++ " `" ++ text ++ "`") at h
  have chars := h.chars
  cases fault <;> simp [LexicalFault.message] at chars

theorem not_guardMessage_cannotStart (text : String) (span : Span) :
    ¬GuardMessage (cannotStart text span).message := by
  intro h
  change GuardMessage ("invalid expression: `" ++ text ++ "` cannot start an expression") at h
  -- The beginnings are the same, but not the last letters.
  have ends : ∃ text', text.toList ++ "` cannot start an expression".toList =
      text' ++ "` has no literal value".toList := by
    simpa using h.chars
  obtain ⟨text', same⟩ := ends
  have last := congrArg List.getLast? same
  simp at last

theorem guardMessage_iff (e : ParseError) : GuardMessage e.message ↔ e.isGuard = true := by
  constructor
  · intro h
    cases e with
    | noLiteral text span | negatedNonNumber span => rfl
    | unexpected expected found span =>
        rw [eq_operator_of_guardMessage h]
        rfl
    | cannotStart text span => exact (not_guardMessage_cannotStart _ _ h).elim
    | lexical e => exact (not_guardMessage_lexical _ h).elim
    | endOfFile expected span =>
        change GuardMessage ("unexpected end of file, expected " ++ expected.text) at h
        simpa using h.chars
    | assignmentTarget span =>
        change GuardMessage "invalid assignment target" at h
        simpa using h.chars
    | tooDeep span =>
        change GuardMessage ("nesting deeper than " ++ toString maxNesting ++ " levels") at h
        simpa using h.chars
    | interpolation cause span =>
        change GuardMessage ("in template literal: " ++ cause.message) at h
        simpa using h.chars
  · intro guard
    unfold isGuard at guard
    split at guard
    · exact .inl ⟨_, rfl⟩
    · exact .inr (.inl rfl)
    · exact .inr (.inr ⟨_, rfl⟩)
    · cases guard

end ParseError

/-! ## Programs -/

/-- Every error of a run over faithful tokens is genuine. -/
theorem ProgramSteps.genuine {g : Grammar} {c c' : Cursor} {ps : List ProgramStep}
    (progress : g.Progresses) (run : ProgramSteps g c ps c') (here : c.Faithful) :
    ∀ p ∈ ps, ∀ e, p.error = some e → e.Genuine := by
  induction run with
  | finish => simp
  | @step c c₁ c' s error ts ps more read taken rest ih =>
      have onward := (statementOrFailure_read progress more read).advances.reaches
      refine List.forall_mem_cons.mpr ⟨fun e failed => ?_, ih (here.reaches onward)⟩
      -- The error is that of the statement here, whatever recovery passes over behind it.
      have statement := progress.statement c
      unfold statementOrFailure at read
      cases failed
      split at read
      · cases read
      · rename_i run
        cases read
        rw [run] at statement
        exact statement.of_error.genuine here

/-- Faithful tokens cause genuine errors only, whether they come from a text or not. -/
theorem Program.genuine_ofTokens {tokens : List Token}
    (faithful : ∀ t ∈ tokens, t.shape.Faithful) :
    ∀ e ∈ (Program.ofTokens tokens).errors, e.Genuine := by
  obtain ⟨ps, run, program⟩ := program_steps tokens
  have genuine := run.genuine (Grammar.progresses_ofRoom maxNesting) (.ofTokens faithful)
  intro e member
  rw [program] at member
  obtain ⟨p, step, failed⟩ := List.mem_filterMap.mp member
  exact genuine p step e failed

theorem ParseError.Genuine.not_guardMessage {e : ParseError} (h : e.Genuine) :
    ∀ cause ∈ e.causes, ¬GuardMessage cause.message := by
  intro cause member said
  rw [guardMessage_iff, h cause member] at said
  cases said

theorem TokensMade.faithful {source : String} {ts : List Token} (made : TokensMade source ts) :
    ∀ t ∈ ts, t.shape.Faithful := by
  cases made with
  | whole => exact fun _ => faithful_of_mem
  | inside => exact fun _ => faithful_of_mem

/-- No error of a source, and no error inside one of its templates, has a message of a guard:
every token that is made carries what its kind stands for, which is enough for every list of
tokens, and whatever continues an expression is a call, a member, an assignment or a binary
operator. -/
theorem guards_unreached (source : String) :
    (∀ e ∈ (parse source).errors, ∀ cause ∈ e.causes, ¬GuardMessage cause.message) ∧
    (∀ room place cs e, (Grammar.ofRoom room).interpolation place cs = .error e →
      ∀ cause ∈ e.causes, ¬GuardMessage cause.message) ∧
    (∀ tokens : List Token, (∀ t ∈ tokens, t.shape.Faithful) →
      ∀ e ∈ (Program.ofTokens tokens).errors, ∀ cause ∈ e.causes, ¬GuardMessage cause.message) ∧
    (∀ ts, TokensMade source ts → ∀ t ∈ ts, t.shape.Faithful) ∧
    ∀ kind, Precedence.lowest < Precedence.ofKind kind ↔
      kind = .leftParen ∨ kind = .dot ∨ kind.isAssignment = true ∨
        (BinaryOp.ofKind? kind).isSome = true := by
  have listed : ∀ tokens : List Token, (∀ t ∈ tokens, t.shape.Faithful) →
      ∀ e ∈ (Program.ofTokens tokens).errors, ∀ cause ∈ e.causes, ¬GuardMessage cause.message :=
    fun tokens faithful e member => (Program.genuine_ofTokens faithful e member).not_guardMessage
  refine ⟨listed _ TokensMade.whole.faithful, ?_, listed, fun _ => TokensMade.faithful,
    Precedence.lowest_lt_ofKind_iff⟩
  intro room place cs e failed
  exact ((Grammar.progresses_ofRoom room).interpolation_genuine failed).not_guardMessage

-- A literal without a value, which no text has, does reach its guard.
example : (Program.ofTokens [⟨.number, "1", ⟨0, 1, 1⟩, none⟩]).errors =
    [.noLiteral "1" ⟨0, 1, 1⟩] := by
  decide +kernel

def crowdedTemplate : String :=
  "`$\x7b`$\x7bx y\x7d`\x7d`;"

/-- The error in the innermost source is wrapped twice, and reading that source alone gives the
same one. A list of faithful tokens that was made by hand has no such error either. -/
theorem guards_unreached_crowded :
    (∃ inner, (parse crowdedTemplate).errors =
        [.interpolation (.interpolation inner ⟨3, 11, 1⟩) ⟨0, 13, 1⟩] ∧
      (Grammar.ofRoom 2).interpolation ⟨6, 1⟩ ['x', ' ', 'y'] = .error inner ∧
      inner.message = "expected end of interpolation, found `y`" ∧
      ¬GuardMessage inner.message ∧ ∀ cause ∈ inner.causes, ¬GuardMessage cause.message) ∧
    (Program.ofTokens [⟨.rightParen, ")", ⟨0, 1, 1⟩, none⟩]).errors =
        [.cannotStart ")" ⟨0, 1, 1⟩] ∧
      ¬GuardMessage (ParseError.cannotStart ")" ⟨0, 1, 1⟩).message ∧
    ∀ t ∈ tokenize crowdedTemplate, t.shape.Faithful := by
  obtain ⟨errors, inside, listed, made, _⟩ := guards_unreached crowdedTemplate
  have read : (parse crowdedTemplate).errors = [.interpolation (.interpolation
      (.unexpected .endOfInterpolation "y" ⟨8, 9, 1⟩) ⟨3, 11, 1⟩) ⟨0, 13, 1⟩] := by
    decide +kernel
  have alone : (Grammar.ofRoom 2).interpolation ⟨6, 1⟩ ['x', ' ', 'y'] =
      .error (.unexpected .endOfInterpolation "y" ⟨8, 9, 1⟩) := by
    with_unfolding_all rfl
  have refused : (Program.ofTokens [⟨.rightParen, ")", ⟨0, 1, 1⟩, none⟩]).errors =
      [.cannotStart ")" ⟨0, 1, 1⟩] := by
    decide +kernel
  refine ⟨⟨_, read, alone, rfl, ?_, inside _ _ _ _ alone⟩, refused, ?_, made _ .whole⟩
  · exact errors _ (read ▸ List.mem_singleton_self _) _ (by simp [ParseError.causes])
  · refine listed _ ?_ _ (refused ▸ List.mem_singleton_self _) _ (by simp [ParseError.causes])
    simpa using Shape.Faithful.of_none rfl rfl

end TwoScript
