import Mathlib.Data.List.Forall2
import TwoScript.Proofs.Parse.Coverage

/-!
# Errors and placeholders

Every statement that fails leaves one placeholder and one error, in the same order, and
no placeholder is left inside another statement. The error of a placeholder shows among
the tokens that were passed over or at the next one: `errors_match_placeholders`.
-/

namespace TwoScript

variable {g : Grammar} {c c₀ c' : Cursor} {s : Statement} {e : ParseError}

/-! ## One statement -/

theorem Cursor.exists_ahead_final (c : Cursor) : ∃ rest, c.ahead ++ [c.final] = c.peek :: rest := by
  cases ahead : c.ahead with
  | nil => exact ⟨[], by rw [peek_of_nil ahead, List.nil_append]⟩
  | cons t ts => exact ⟨ts ++ [c.final], by rw [peek_of_cons ahead, List.cons_append]⟩

namespace StatementRead

theorem isSome_eq {e : Option ParseError} (h : StatementRead g c s e c') :
    e.isSome = s.isFailed := by
  cases h with
  | parsed _ covers =>
      have whole : (Node.statement s).Every unbroken := covers.every
      exact whole.isFailed_eq.symm
  | failed => rfl

/-- A placeholder has nothing below it, and a statement that was read holds none. -/
theorem isFailed_below {e : Option ParseError} (h : StatementRead g c s e c') {n : Node}
    (below : (Node.statement s).Below n) : n.isFailed = false := by
  cases h with
  | parsed _ covers =>
      have whole : (Node.statement s).Every unbroken := covers.every
      exact (whole.below unbroken_bare below).isFailed_eq
  | failed => exact (Node.not_below_failed below).elim

theorem error_bounds (h : StatementRead g c s (some e) c') (ordered : c.Ordered) :
    s.span.start ≤ e.span.start ∧ e.span.start ≤ c'.span.start ∧ e.span.start ≤ e.span.stop ∧
      e.span.stop ≤ c.final.span.stop := by
  rw [h.start_eq]
  cases h with
  | failed _ shows => exact (shows ordered).bounds ordered

/-- The token behind a statement is the first one that starts behind its span. -/
theorem find?_next {e : Option ParseError} (h : StatementRead g c s e c') (ordered : c₀.Ordered)
    (there : c₀.Reaches c) (long : ∀ t ∈ c₀.ahead, t.span.start < t.span.stop) :
    (c₀.ahead ++ [c₀.final]).find? (fun t => s.span.stop ≤ t.span.start) = some c'.peek := by
  have further := there.trans_advances h.advances
  obtain ⟨ts, last, ahead, previous⟩ := further.exists_last
  obtain ⟨_, same, stop, next⟩ := h.stop_eq (ordered.reaches there)
  obtain rfl := Option.some.inj (previous.symm.trans same)
  obtain ⟨rest, behind⟩ := c'.exists_ahead_final
  refine List.find?_eq_some_iff_append.mpr ⟨decide_eq_true ?_, ts ++ [last], rest, ?_, ?_⟩
  · rw [stop]
    exact next
  · rw [← behind, ahead, further.reaches.final_eq]
    simp
  · intro t passed
    have before := ordered.stop_le_last ahead passed
    have inside : t ∈ c₀.ahead := by
      rw [ahead]
      simpa using List.mem_append_left c'.ahead passed
    have nonempty := long t inside
    simp only [Bool.not_eq_true', decide_eq_false_iff_not]
    omega

end StatementRead

/-! ## Whole programs -/

/-- Errors and placeholders are those of the same steps. -/
theorem forall₂_placeholders {R : Statement → ParseError → Prop} {ps : List ProgramStep}
    (same : ∀ p ∈ ps, p.error.isSome = p.statement.isFailed)
    (holds : ∀ p ∈ ps, ∀ e, p.error = some e → R p.statement e) :
    List.Forall₂ R ((ps.map ProgramStep.statement).filter Statement.isFailed)
      (ps.filterMap ProgramStep.error) := by
  induction ps with
  | nil => exact .nil
  | cons p ps ih =>
      have rest := ih (fun p hr => same p (List.mem_cons_of_mem _ hr))
        (fun p hr => holds p (List.mem_cons_of_mem _ hr))
      have first := same p (by simp)
      rw [List.map_cons, List.filter_cons, List.filterMap_cons, ← first]
      cases error : p.error with
      | none => exact rest
      | some e => exact .cons (holds p (by simp) e error) rest

namespace ProgramSteps

variable {ps : List ProgramStep}

theorem isSome_eq (progress : g.Progresses) (h : ProgramSteps g c ps c') :
    ∀ p ∈ ps, p.error.isSome = p.statement.isFailed := by
  intro p member
  obtain ⟨c₁, c₂, _, read, _⟩ := h.exists_step progress member
  exact read.isSome_eq

/-- The error of a step shows between the start of its statement and the next token, and
inside the source. -/
theorem error_shows (progress : g.Progresses) (h : ProgramSteps g c ps c') {source : String}
    (begins : c.Begins source) : ∀ p ∈ ps, ∀ e, p.error = some e →
      (p.statement.span.start ≤ e.span.start ∧
        ∃ t, (tokenize source).find? (fun t => p.statement.span.stop ≤ t.span.start) = some t ∧
          e.span.start ≤ t.span.start) ∧
      e.span.start ≤ e.span.stop ∧ e.span.stop ≤ source.utf8ByteSize := by
  intro p member e error
  obtain ⟨c₁, c₂, there, read, _⟩ := h.exists_step progress member
  have next := read.find?_next begins.ordered there begins.long
  rw [error] at read
  rw [← begins.tokens] at next
  have bounds := read.error_bounds (begins.ordered.reaches there)
  rw [there.final_eq, begins.stop] at bounds
  exact ⟨⟨bounds.1, c₂.peek, next, bounds.2.1⟩, bounds.2.2⟩

/-- An error shows in front of the statements that were read after it. -/
theorem pairwise_errors (progress : g.Progresses) (h : ProgramSteps g c ps c')
    (ordered : c.Ordered) :
    (ps.filterMap ProgramStep.error).Pairwise fun e e' => e.span.start ≤ e'.span.start := by
  rw [List.pairwise_filterMap]
  induction h with
  | finish => exact .nil
  | step more run _ rest ih =>
      have read := statementOrFailure_read progress more run
      have ordered₁ := ordered.advances read.advances
      refine List.pairwise_cons.mpr ⟨fun p later e found e' found' => ?_, ih ordered₁⟩
      obtain ⟨c₁, c₂, there, next, _⟩ := rest.exists_step progress later
      simp only at found
      subst found
      rw [found'] at next
      have first := read.error_bounds ordered
      have second := next.error_bounds (ordered₁.reaches there)
      have between := ordered₁.start_le there
      rw [next.start_eq] at second
      omega

end ProgramSteps

/-- There is one error for each placeholder. In a source it shows at a token of its
placeholder or at the one behind it, so errors are ordered as placeholders are, and it
lies inside the source. -/
theorem errors_match_placeholders :
    (∀ tokens : List Token,
      (Program.ofTokens tokens).errors.length =
        (Program.ofTokens tokens).statements.countP Statement.isFailed ∧
      ∀ s ∈ (Program.ofTokens tokens).statements, ∀ n, (Node.statement s).Below n →
        n.isFailed = false) ∧
    ∀ source : String,
      List.Forall₂ (fun s e => s.span.start ≤ e.span.start ∧
          ∃ t, (tokenize source).find? (fun t => s.span.stop ≤ t.span.start) = some t ∧
            e.span.start ≤ t.span.start)
        ((parse source).statements.filter Statement.isFailed) (parse source).errors ∧
      ((parse source).errors.Pairwise fun e e' => e.span.start ≤ e'.span.start) ∧
      ∀ e ∈ (parse source).errors,
        e.span.start ≤ e.span.stop ∧ e.span.stop ≤ source.utf8ByteSize := by
  have progress : Grammar.full.Progresses := Grammar.progresses_ofRoom maxNesting
  constructor
  · intro tokens
    obtain ⟨ps, run, program⟩ := program_steps tokens
    rw [program]
    constructor
    · have matched := forall₂_placeholders (R := fun _ _ => True) (run.isSome_eq progress)
        fun _ _ _ _ => trivial
      rw [List.countP_eq_length_filter]
      exact matched.length_eq.symm
    · intro s hs n below
      obtain ⟨p, member, rfl⟩ := List.mem_map.mp hs
      obtain ⟨c₁, c₂, _, read, _⟩ := run.exists_step progress member
      exact read.isFailed_below below
  · intro source
    obtain ⟨ps, run, program⟩ := program_steps (tokenize source)
    have begins := Cursor.begins_tokenize source
    rw [parse, program]
    have shows := run.error_shows progress begins
    refine ⟨?_, run.pairwise_errors progress begins.ordered, ?_⟩
    · exact forall₂_placeholders (run.isSome_eq progress) fun p member e error =>
        (shows p member e error).1
    · intro e he
      obtain ⟨p, member, error⟩ := List.mem_filterMap.mp he
      exact (shows p member e error).2

end TwoScript
