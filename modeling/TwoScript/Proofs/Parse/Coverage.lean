import Mathlib.Logic.ExistsUnique
import TwoScript.Proofs.Parse.Alike
import TwoScript.Proofs.Parse.Progress
import TwoScript.Proofs.Parse.Source
import TwoScript.Proofs.Token.Lossless

/-!
# What the statements of a program cover

A program is read step by step. Each step takes at least one token, whether its statement
was read or failed, and the steps end where the input does, so the statements of a
program divide its tokens: `program_covers_tokens`. A `ProgramStep` keeps the tokens of a
step next to its statement, and `ProgramSteps` is the run of a program with them.
-/

namespace TwoScript

variable {g : Grammar} {c c' : Cursor}

/-! ## One statement -/

namespace Cursor

theorem reaches_resume (start c : Cursor) : c.Reaches (resume start c) := by
  simp only [resume]
  split
  · exact .refl c
  · exact reaches_skip _ c

/-- Recovery starts where the statement failed and passes at least one token. -/
theorem Reaches.recover (h : c.Reaches c') (more : c.ahead ≠ []) :
    c.Advances (recover c c') ∧ c'.Reaches (recover c c') := by
  rw [recover_eq]
  unfold passed
  rcases h.eq_or_advances with rfl | further
  · have first := advances_next rfl (mt peek_kind_eq_end.mp more)
    rw [if_pos rfl]
    have onward := first.trans (reaches_resume c c.next)
    exact ⟨onward, onward.reaches⟩
  · have shorter := further.length_lt
    rw [if_neg (by omega)]
    exact ⟨further.trans (reaches_resume c c'), reaches_resume c c'⟩

end Cursor

/-- One statement of a program: it was read, or it failed and a placeholder spans what was
passed over. The error of one that failed shows there. -/
inductive StatementRead (g : Grammar) (c : Cursor) :
    Statement → Option ParseError → Cursor → Prop where
  | parsed {s : Statement} {c' : Cursor} :
      g.statement c = .ok s c' → s.Covers c c' → StatementRead g c s none c'
  | failed {e : ParseError} {c' : Cursor} :
      c.Advances c' → (c.Ordered → c.Shows c' e.span) →
        StatementRead g c (.failed (c'.spanFrom c.span)) (some e) c'

theorem statementOrFailure_read (progress : g.Progresses) (more : c.ahead ≠ [])
    {s : Statement} {e : Option ParseError} (run : statementOrFailure g c = (s, e, c')) :
    StatementRead g c s e c' := by
  have outcome := progress.statement c
  unfold statementOrFailure at run
  cases statement : g.statement c with
  | ok s₁ c₁ =>
      rw [statement] at run outcome
      cases run
      exact .parsed statement outcome.of_ok.2
  | error e₁ c₁ =>
      rw [statement] at run outcome
      cases run
      have fails := outcome.of_error
      obtain ⟨onward, behind⟩ := fails.reaches.recover more
      exact .failed onward fun ordered => (fails.shows ordered).later behind

namespace StatementRead

variable {s : Statement} {e : Option ParseError}

theorem advances (h : StatementRead g c s e c') : c.Advances c' := by
  cases h with
  | parsed _ covers => exact covers.advances
  | failed further _ => exact further

theorem span_eq (h : StatementRead g c s e c') : s.span = c'.spanFrom c.span := by
  cases h with
  | parsed _ covers => exact covers.span
  | failed => rfl

theorem start_eq (h : StatementRead g c s e c') : s.span.start = c.span.start := by
  rw [h.span_eq]
  rfl

/-- A statement without an error was read. -/
theorem every_of_none (h : StatementRead g c s none c') : s.Every unbroken := by
  cases h with
  | parsed _ covers => exact covers.every

/-- The span of a statement ends with the last token it took. -/
theorem stop_eq (h : StatementRead g c s e c') (ordered : c.Ordered) :
    ∃ t, c'.previous = some t ∧ s.span.stop = t.span.stop ∧ t.span.stop ≤ c'.span.start := by
  obtain ⟨t, last, first, next⟩ := ordered.last h.advances
  have forward := ordered.span_forward
  refine ⟨t, last, ?_, next⟩
  rw [h.span_eq, Cursor.spanFrom_of_previous last (by omega)]

end StatementRead

/-! ## Whole programs -/

/-- A step of a program: its statement, the error if that is a placeholder, and the tokens
that were taken. -/
structure ProgramStep where
  statement : Statement
  error : Option ParseError
  tokens : List Token

inductive ProgramSteps (g : Grammar) : Cursor → List ProgramStep → Cursor → Prop where
  | finish {c : Cursor} : c.ahead = [] → ProgramSteps g c [] c
  | step {c c₁ c' : Cursor} {s : Statement} {e : Option ParseError} {ts : List Token}
      {ps : List ProgramStep} : c.ahead ≠ [] → statementOrFailure g c = (s, e, c₁) →
      c.ahead = ts ++ c₁.ahead → ProgramSteps g c₁ ps c' → ProgramSteps g c (⟨s, e, ts⟩ :: ps) c'

def Program.ofSteps (ps : List ProgramStep) : Program :=
  ⟨ps.map ProgramStep.statement, ps.filterMap ProgramStep.error⟩

theorem Program.ofSteps_cons (p : ProgramStep) (ps : List ProgramStep) :
    ofSteps (p :: ps) = (ofSteps ps).push p.statement p.error := by
  obtain ⟨s, e, ts⟩ := p
  cases e <;> rfl

/-- Every program is read in such a run. -/
theorem programFrom_steps (progress : g.Progresses) (c : Cursor) :
    ∃ ps c', ProgramSteps g c ps c' ∧ programFrom g c = (.ofSteps ps, c') := by
  -- Every statement uses up a token, so the guard of the loop never stops it early.
  induction length : c.ahead.length using Nat.strongRecOn generalizing c with
  | ind n ih =>
      rw [programFrom]
      by_cases ended : c.ahead = []
      · exact ⟨[], c, .finish ended, if_pos (List.isEmpty_iff.mpr ended)⟩
      · have more : ¬c.atEnd = true := fun empty => ended (List.isEmpty_iff.mp empty)
        rw [if_neg more]
        rcases run : statementOrFailure g c with ⟨s, e, c₁⟩
        have further := (statementOrFailure_read progress ended run).advances
        have shorter := further.length_lt
        obtain ⟨ps, c', rest, program⟩ := ih c₁.ahead.length (by omega) c₁ rfl
        obtain ⟨ts, taken⟩ := further.reaches.exists_passed
        refine ⟨⟨s, e, ts⟩ :: ps, c', .step ended run taken rest, ?_⟩
        simp only [shorter, if_true, program, Program.ofSteps_cons]

namespace ProgramSteps

variable {ps : List ProgramStep}

/-- The steps divide the tokens ahead, down to the last one. -/
theorem tokens_eq (h : ProgramSteps g c ps c') :
    c.ahead = ps.flatMap ProgramStep.tokens ∧ c'.ahead = [] := by
  induction h with
  | finish ended => exact ⟨ended, ended⟩
  | step _ _ taken _ ih => exact ⟨by rw [taken, ih.1, List.flatMap_cons], ih.2⟩

/-- Every step was made at a cursor that the run has reached. -/
theorem exists_step (progress : g.Progresses) (h : ProgramSteps g c ps c') {p : ProgramStep}
    (member : p ∈ ps) :
    ∃ c₁ c₂, c.Reaches c₁ ∧ StatementRead g c₁ p.statement p.error c₂ ∧
      c₁.ahead = p.tokens ++ c₂.ahead := by
  induction h with
  | finish => cases member
  | step more run taken _ ih =>
      have read := statementOrFailure_read progress more run
      rcases List.mem_cons.mp member with rfl | later
      · exact ⟨_, _, .refl _, read, taken⟩
      · obtain ⟨c₁, c₂, there, found⟩ := ih later
        exact ⟨c₁, c₂, read.advances.reaches.trans there, found⟩

theorem reaches (progress : g.Progresses) (h : ProgramSteps g c ps c') : c.Reaches c' := by
  induction h with
  | finish => exact .refl _
  | step more run _ _ ih =>
      exact (statementOrFailure_read progress more run).advances.reaches.trans ih

theorem tokens_ne_nil (progress : g.Progresses) (h : ProgramSteps g c ps c') :
    ∀ p ∈ ps, p.tokens ≠ [] := by
  intro p member empty
  obtain ⟨c₁, c₂, _, read, taken⟩ := h.exists_step progress member
  have shorter := read.advances.length_lt
  rw [taken, empty] at shorter
  simp at shorter

/-- There are no more steps than tokens. -/
theorem length_le (progress : g.Progresses) (h : ProgramSteps g c ps c') :
    ps.length ≤ c.ahead.length := by
  induction h with
  | finish => exact Nat.zero_le _
  | step more run _ _ ih =>
      have shorter := (statementOrFailure_read progress more run).advances.length_lt
      rw [List.length_cons]
      omega

end ProgramSteps

/-! ## Spans of statements -/

namespace Cursor

theorem Ordered.start_le_of_mem (ordered : c.Ordered) {t : Token} (member : t ∈ c.ahead) :
    c.span.start ≤ t.span.start := by
  cases ahead : c.ahead with
  | nil =>
      rw [ahead] at member
      cases member
  | cons first rest =>
      have forward := ordered.span_forward
      have apart := ordered.apart
      rw [ahead, List.cons_append] at apart
      rw [span, peek_of_cons ahead] at forward ⊢
      rw [ahead] at member
      rcases List.mem_cons.mp member with rfl | later
      · exact Nat.le_refl _
      · have behind := (List.pairwise_cons.mp apart).1 t (List.mem_append_left _ later)
        omega

/-- Every token that was passed ends in front of the end of the last one. -/
theorem Ordered.stop_le_last (ordered : c.Ordered) {ts : List Token} {last : Token}
    (ahead : c.ahead = ts ++ last :: c'.ahead) {t : Token} (member : t ∈ ts ++ [last]) :
    t.span.stop ≤ last.span.stop := by
  obtain ⟨forward, apart⟩ := ordered
  rw [ahead, List.append_assoc] at forward apart
  rcases List.mem_append.mp member with before | itself
  · have behind := (List.pairwise_append.mp apart).2.2 t before last (by simp)
    have long := forward last (by simp)
    omega
  · exact Nat.le_of_eq (by rw [List.mem_singleton.mp itself])

end Cursor

/-- The span of a statement begins and ends with tokens that it took, and encloses all of
them. -/
theorem StatementRead.frames {s : Statement} {e : Option ParseError} {ts : List Token}
    (h : StatementRead g c s e c') (ordered : c.Ordered) (taken : c.ahead = ts ++ c'.ahead) :
    (∃ t ∈ ts, t.span.start = s.span.start) ∧ (∃ t ∈ ts, t.span.stop = s.span.stop) ∧
      ∀ t ∈ ts, s.span.start ≤ t.span.start ∧ t.span.stop ≤ s.span.stop := by
  obtain ⟨us, last, ahead, previous⟩ := h.advances.exists_last
  obtain ⟨_, same, stop, _⟩ := h.stop_eq ordered
  obtain rfl := Option.some.inj (previous.symm.trans same)
  obtain rfl : ts = us ++ [last] := by
    apply List.append_cancel_right
    rw [← taken, ahead, List.append_assoc, List.singleton_append]
  rw [h.start_eq, stop]
  refine ⟨⟨c.peek, ?_, rfl⟩, ⟨last, by simp, rfl⟩, fun t member => ⟨?_, ?_⟩⟩
  · cases us with
    | nil => simp [Cursor.peek_of_cons ahead]
    | cons u us => simp [Cursor.peek_of_cons ahead]
  · apply ordered.start_le_of_mem
    rw [taken]
    exact List.mem_append_left _ member
  · exact ordered.stop_le_last ahead member

namespace ProgramSteps

variable {ps : List ProgramStep}

theorem frames (progress : g.Progresses) (h : ProgramSteps g c ps c') (ordered : c.Ordered) :
    ∀ p ∈ ps, (∃ t ∈ p.tokens, t.span.start = p.statement.span.start) ∧
      (∃ t ∈ p.tokens, t.span.stop = p.statement.span.stop) ∧
      ∀ t ∈ p.tokens,
        p.statement.span.start ≤ t.span.start ∧ t.span.stop ≤ p.statement.span.stop := by
  intro p member
  obtain ⟨c₁, c₂, there, read, taken⟩ := h.exists_step progress member
  exact read.frames (ordered.reaches there) taken

/-- Statements follow each other as their tokens do. -/
theorem pairwise_spans (progress : g.Progresses) (h : ProgramSteps g c ps c')
    (ordered : c.Ordered) :
    (ps.map ProgramStep.statement).Pairwise fun s s' => s.span.stop ≤ s'.span.start := by
  rw [List.pairwise_map]
  induction h with
  | finish => exact .nil
  | step more run taken rest ih =>
      have read := statementOrFailure_read progress more run
      have ordered₁ := ordered.advances read.advances
      refine List.pairwise_cons.mpr ⟨fun p later => ?_, ih ordered₁⟩
      obtain ⟨c₁, c₂, there, next, _⟩ := rest.exists_step progress later
      -- The first statement ends in front of the next cursor, where the others start or later.
      obtain ⟨t, _, stop, before⟩ := read.stop_eq ordered
      have between := ordered₁.start_le there
      rw [stop, next.start_eq]
      omega

end ProgramSteps

/-! ## Sources -/

structure Cursor.Begins (c : Cursor) (source : String) : Prop where
  tokens : tokenize source = c.ahead ++ [c.final]
  ordered : c.Ordered
  long : ∀ t ∈ c.ahead, t.span.start < t.span.stop
  stop : c.final.span.stop = source.utf8ByteSize

theorem Cursor.begins_tokenize (source : String) :
    (ofTokens (tokenize source)).Begins source := by
  have tiles : Tiles source.toList [] (tokenize source) := tiles_tokensFrom rfl
  obtain ⟨ts, whole, inner⟩ := tiles.exists_last
  obtain ⟨ahead, final⟩ := ofTokens_append_cons (t := endToken (Place.first.after source.toList)) []
    (fun t ht => (inner t ht).1) rfl
  rw [← whole] at ahead final
  have ends : (Place.first.after source.toList).offset = source.utf8ByteSize := by
    simp [Place.after, Place.first, byteLength_toList]
  have tokens : tokenize source = (ofTokens (tokenize source)).ahead ++
      [(ofTokens (tokenize source)).final] := by rw [ahead, final, ← whole]
  refine ⟨tokens, ⟨fun t ht => ?_, ?_⟩, ?_, ?_⟩
  · rw [ahead, final] at ht
    rcases List.mem_append.mp ht with before | itself
    · exact Nat.le_of_lt (inner t before).2
    · rw [List.mem_singleton.mp itself]
      exact Nat.le_refl _
  · rw [← tokens]
    exact tiles.ordered
  · rw [ahead]
    exact fun t ht => (inner t ht).2
  · rw [final]
    exact ends

/-- All tokens but the end of the source are ahead. -/
theorem Cursor.Begins.mem_ahead {source : String} (h : c.Begins source) {t : Token} :
    t ∈ c.ahead ↔ t ∈ tokenize source ∧ t.kind ≠ .endOfFile := by
  rw [h.tokens]
  constructor
  · exact fun ahead => ⟨List.mem_append_left _ ahead, c.inner t ahead⟩
  · rintro ⟨member, inner⟩
    rcases List.mem_append.mp member with ahead | last
    · exact ahead
    · rw [List.mem_singleton.mp last] at inner
      exact (inner c.ends).elim

/-- The first end among the tokens is the one at which reading stops. -/
theorem Cursor.endOf_of_find? {tokens : List Token} {t : Token}
    (first : tokens.find? (fun t => t.kind = .endOfFile) = some t) : endOf tokens = t := by
  obtain ⟨ends, ts, us, rfl, before⟩ := List.find?_eq_some_iff_append.mp first
  have inner : ∀ u ∈ ts, isInner u = true := fun u hu => by simpa [isInner] using before u hu
  have stop : isInner t = false := by simpa [isInner] using ends
  rw [endOf, List.dropWhile_append_of_pos inner, List.dropWhile_cons_of_neg (by simp [stop])]
  rfl

/-- Every list of tokens is read in a run. -/
theorem program_steps (tokens : List Token) :
    ∃ ps, ProgramSteps .full (Cursor.ofTokens tokens) ps (Cursor.ofTokens tokens).program.2 ∧
      Program.ofTokens tokens = .ofSteps ps := by
  obtain ⟨ps, c', run, program⟩ :=
    programFrom_steps (Grammar.progresses_ofRoom maxNesting) (Cursor.ofTokens tokens)
  have same : (Cursor.ofTokens tokens).program = (.ofSteps ps, c') := program
  exact ⟨ps, by rw [same]; exact run, by rw [Program.ofTokens, same]⟩

/-- Statements that follow each other do not share a token. -/
theorem existsUnique_enclosing {ss : List Statement} {t : Token}
    (apart : ss.Pairwise fun s s' => s.span.stop ≤ s'.span.start)
    (long : t.span.start < t.span.stop)
    (found : ∃ s ∈ ss, s.span.start ≤ t.span.start ∧ t.span.stop ≤ s.span.stop) :
    ∃! i : Nat, ∃ s : Statement, ss[i]? = some s ∧
      s.span.start ≤ t.span.start ∧ t.span.stop ≤ s.span.stop := by
  have before : ∀ (i j : Nat) (s s' : Statement), ss[i]? = some s → ss[j]? = some s' →
      t.span.stop ≤ s.span.stop → s'.span.start ≤ t.span.start → ¬i < j := by
    intro i j s s' first second stop start earlier
    obtain ⟨hi, rfl⟩ := List.getElem?_eq_some_iff.mp first
    obtain ⟨hj, rfl⟩ := List.getElem?_eq_some_iff.mp second
    have between := List.pairwise_iff_getElem.mp apart i j hi hj earlier
    omega
  obtain ⟨s, member, encloses⟩ := found
  obtain ⟨i, found⟩ := List.mem_iff_getElem?.mp member
  refine ⟨i, ⟨s, found, encloses⟩, ?_⟩
  rintro j ⟨s', found', encloses'⟩
  have notAfter := before i j s s' found found' encloses.2 encloses'.1
  have notBefore := before j i s' s found' found encloses'.2 encloses.1
  omega

namespace ProgramSteps

variable {ps : List ProgramStep} {source : String}

/-- The steps took the tokens of the source, all but its end. -/
theorem mem_tokens (h : ProgramSteps g c ps c') (begins : c.Begins source) {t : Token} :
    (∃ p ∈ ps, t ∈ p.tokens) ↔ t ∈ tokenize source ∧ t.kind ≠ .endOfFile := by
  rw [← begins.mem_ahead, h.tokens_eq.1, List.mem_flatMap]

theorem bounded (progress : g.Progresses) (h : ProgramSteps g c ps c') (begins : c.Begins source) :
    ∀ p ∈ ps, p.statement.span.start < p.statement.span.stop ∧
      (∃ t ∈ tokenize source, t.kind ≠ .endOfFile ∧ t.span.start = p.statement.span.start) ∧
      ∃ t ∈ tokenize source, t.kind ≠ .endOfFile ∧ t.span.stop = p.statement.span.stop := by
  intro p member
  obtain ⟨⟨t, ht, start⟩, ⟨u, hu, stop⟩, within⟩ := h.frames progress begins.ordered p member
  obtain ⟨first, inner⟩ := (h.mem_tokens begins).mp ⟨p, member, ht⟩
  obtain ⟨last, inner'⟩ := (h.mem_tokens begins).mp ⟨p, member, hu⟩
  have long := begins.long t (begins.mem_ahead.mpr ⟨first, inner⟩)
  have enclosed := within t ht
  exact ⟨by omega, ⟨t, first, inner, start⟩, u, last, inner', stop⟩

theorem existsUnique_statement (progress : g.Progresses) (h : ProgramSteps g c ps c')
    (begins : c.Begins source) {t : Token} (member : t ∈ tokenize source)
    (inner : t.kind ≠ .endOfFile) :
    ∃! i : Nat, ∃ s : Statement, (ps.map ProgramStep.statement)[i]? = some s ∧
      s.span.start ≤ t.span.start ∧ t.span.stop ≤ s.span.stop := by
  obtain ⟨p, taken, within⟩ := (h.mem_tokens begins).mpr ⟨member, inner⟩
  have long := begins.long t (begins.mem_ahead.mpr ⟨member, inner⟩)
  have encloses := (h.frames progress begins.ordered p taken).2.2 t within
  have apart := h.pairwise_spans progress begins.ordered
  exact existsUnique_enclosing apart long ⟨_, List.mem_map_of_mem taken, encloses⟩

end ProgramSteps

/-- The statements of a program divide its tokens. Reading ends at the first end of the
input that the tokens hold, or behind the last token; every statement, placeholders
included, took at least one token. The statements of a source have spans that follow
each other and are bounded by tokens, and each token lies in the span of exactly one. -/
theorem program_covers_tokens :
    (∀ tokens : List Token, ∃ steps : List ProgramStep,
      ProgramSteps .full (Cursor.ofTokens tokens) steps (Cursor.ofTokens tokens).program.2 ∧
      (Program.ofTokens tokens).statements = steps.map ProgramStep.statement ∧
      (∀ p ∈ steps, p.tokens ≠ []) ∧
      steps.flatMap ProgramStep.tokens = tokens.takeWhile (fun t => t.kind ≠ .endOfFile) ∧
      (Cursor.ofTokens tokens).program.2.atEnd = true ∧
      (∀ t, tokens.find? (fun t => t.kind = .endOfFile) = some t →
        (Cursor.ofTokens tokens).program.2.peek = t) ∧
      (Program.ofTokens tokens).statements.length ≤
        (tokens.takeWhile fun t => t.kind ≠ .endOfFile).length) ∧
    ∀ source : String,
      ((parse source).statements.Pairwise fun s s' => s.span.stop ≤ s'.span.start) ∧
      (∀ s ∈ (parse source).statements, s.span.start < s.span.stop ∧
        (∃ t ∈ tokenize source, t.kind ≠ .endOfFile ∧ t.span.start = s.span.start) ∧
        ∃ t ∈ tokenize source, t.kind ≠ .endOfFile ∧ t.span.stop = s.span.stop) ∧
      ∀ t ∈ tokenize source, t.kind ≠ .endOfFile →
        ∃! i : Nat, ∃ s : Statement, (parse source).statements[i]? = some s ∧
          s.span.start ≤ t.span.start ∧ t.span.stop ≤ s.span.stop := by
  have progress : Grammar.full.Progresses := Grammar.progresses_ofRoom maxNesting
  constructor
  · intro tokens
    obtain ⟨ps, run, program⟩ := program_steps tokens
    obtain ⟨divided, ended⟩ := run.tokens_eq
    refine ⟨ps, run, by rw [program]; rfl, run.tokens_ne_nil progress, divided.symm,
      List.isEmpty_iff.mpr ended, ?_, ?_⟩
    · intro t first
      rw [Cursor.peek_of_nil ended, (run.reaches progress).final_eq]
      exact Cursor.endOf_of_find? first
    · rw [program, Program.ofSteps, List.length_map]
      exact run.length_le progress
  · intro source
    obtain ⟨ps, run, program⟩ := program_steps (tokenize source)
    have begins := Cursor.begins_tokenize source
    rw [parse, program]
    refine ⟨run.pairwise_spans progress begins.ordered, ?_, ?_⟩
    · intro s hs
      obtain ⟨p, member, rfl⟩ := List.mem_map.mp hs
      exact run.bounded progress begins p member
    · intro t member inner
      exact run.existsUnique_statement progress begins member inner

end TwoScript
