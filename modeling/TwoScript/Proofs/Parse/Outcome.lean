import TwoScript.Proofs.Parse.Genuine
import TwoScript.Proofs.Parse.Run

/-!
# How a reader can end

A reader that starts at a cursor ends there or further on, with a value or with an
error; an error shows at a token, or at a stretch of tokens, that was passed or comes
next, and comes from a guard only if some token ahead is not faithful. `Outcome` says so of
a single run, and its rules follow the ways in which readers are put together. Nothing is
assumed about the tokens: where spans are compared or values are asked for, the condition
on the tokens is part of what is said.
-/

namespace TwoScript

namespace Cursor

variable {c c₁ c₂ c' : Cursor}

/-! ## Tokens passed -/

theorem reaches_next (c : Cursor) : c.Reaches c.next := by
  by_cases ended : c.ahead = []
  · rw [next_of_nil ended]
    exact .refl c
  · exact ⟨[c.peek.shape], takes_next fun kind => ended (peek_kind_eq_end.mp kind)⟩

theorem reaches_skip (n : Nat) (c : Cursor) : c.Reaches (c.skip n) := by
  induction n generalizing c with
  | zero => exact .refl c
  | succ n ih => exact (reaches_next c).trans (ih c.next)

theorem Reaches.eq_or_advances (h : c.Reaches c') : c = c' ∨ c.Advances c' := by
  obtain ⟨ts, taken⟩ := h
  cases ts with
  | nil => exact .inl taken
  | cons t ts => exact .inr ⟨t :: ts, by simp, taken⟩

/-- The token passed last is the one in front of the cursor. -/
theorem Advances.exists_last (h : c.Advances c') :
    ∃ ts t, c.ahead = ts ++ t :: c'.ahead ∧ c'.previous = some t := by
  obtain ⟨shapes, nonempty, taken⟩ := h
  induction shapes generalizing c with
  | nil => exact (nonempty rfl).elim
  | cons s shapes ih =>
      obtain ⟨rfl, inner, rest⟩ := taken
      have ahead : c.ahead = c.peek :: c.next.ahead := ahead_eq_cons inner
      cases shapes with
      | nil =>
          obtain rfl := takes_nil.mp rest
          exact ⟨[], c.peek, ahead, previous_next ahead⟩
      | cons s' shapes =>
          obtain ⟨ts, t, passed, last⟩ := ih (by simp) rest
          exact ⟨c.peek :: ts, t, by rw [ahead, passed, List.cons_append], last⟩

theorem Reaches.exists_passed (h : c.Reaches c') : ∃ ts, c.ahead = ts ++ c'.ahead := by
  rcases h.eq_or_advances with rfl | further
  · exact ⟨[], rfl⟩
  · obtain ⟨ts, t, ahead, _⟩ := further.exists_last
    exact ⟨ts ++ [t], by rw [ahead, List.append_assoc, List.singleton_append]⟩

theorem Reaches.final_eq (h : c.Reaches c') : c'.final = c.final := by
  obtain ⟨ts, taken⟩ := h
  exact taken.final_eq

/-- Every token ahead carries what its kind stands for. -/
def Faithful (c : Cursor) : Prop :=
  ∀ t ∈ c.ahead, t.shape.Faithful

namespace Faithful

theorem reaches (h : c.Faithful) (there : c.Reaches c') : c'.Faithful := by
  obtain ⟨ts, ahead⟩ := there.exists_passed
  intro t member
  exact h t (ahead ▸ List.mem_append_right ts member)

theorem peek (h : c.Faithful) (inner : c.peek.kind ≠ .endOfFile) : c.peek.shape.Faithful :=
  h c.peek (peek_mem_ahead inner)

theorem ofTokens {tokens : List Token} (h : ∀ t ∈ tokens, t.shape.Faithful) :
    (ofTokens tokens).Faithful :=
  fun t member => h t (List.takeWhile_subset _ member)

end Faithful

/-! ## Tokens in order -/

structure Ordered (c : Cursor) : Prop where
  forward : ∀ t ∈ c.ahead ++ [c.final], t.span.start ≤ t.span.stop
  apart : (c.ahead ++ [c.final]).Pairwise fun t u => t.span.stop ≤ u.span.start

theorem peek_mem (c : Cursor) : c.peek ∈ c.ahead ++ [c.final] := by
  cases ahead : c.ahead with
  | nil => simp [peek_of_nil ahead]
  | cons t ts => simp [peek_of_cons ahead]

/-- What is ahead of a cursor begins with the tokens passed on the way to another one. -/
theorem Advances.whole (h : c.Advances c') :
    ∃ ts t, c'.previous = some t ∧ (ts = [] → c.peek = t) ∧ (ts ≠ [] → c.peek ∈ ts) ∧
      c.ahead ++ [c.final] = ts ++ t :: (c'.ahead ++ [c'.final]) := by
  obtain ⟨ts, t, ahead, last⟩ := h.exists_last
  refine ⟨ts, t, last, ?_, ?_, ?_⟩
  · rintro rfl
    exact peek_of_cons ahead
  · intro nonempty
    obtain ⟨u, us, rfl⟩ := List.exists_cons_of_ne_nil nonempty
    rw [List.cons_append] at ahead
    simp [peek_of_cons ahead]
  · rw [ahead, h.reaches.final_eq]
    simp

theorem Ordered.advances (ordered : c.Ordered) (h : c.Advances c') : c'.Ordered := by
  obtain ⟨ts, t, _, _, _, whole⟩ := h.whole
  obtain ⟨forward, apart⟩ := ordered
  rw [whole] at forward apart
  refine ⟨fun u hu => forward u ?_, (List.pairwise_cons.mp (List.pairwise_append.mp apart).2.1).2⟩
  exact List.mem_append_right _ (List.mem_cons_of_mem _ hu)

theorem Ordered.reaches (ordered : c.Ordered) (h : c.Reaches c') : c'.Ordered := by
  rcases h.eq_or_advances with rfl | further
  · exact ordered
  · exact ordered.advances further

theorem Ordered.span_forward (ordered : c.Ordered) : c.span.start ≤ c.span.stop :=
  ordered.forward c.peek c.peek_mem

theorem Ordered.span_le_final (ordered : c.Ordered) : c.span.stop ≤ c.final.span.stop := by
  cases ahead : c.ahead with
  | nil => exact Nat.le_of_eq (by rw [span, peek_of_nil ahead])
  | cons t ts =>
      have apart := ordered.apart
      rw [ahead, List.cons_append] at apart
      have behind := (List.pairwise_cons.mp apart).1 c.final (by simp)
      have forward := ordered.forward c.final (by simp)
      rw [span, peek_of_cons ahead]
      omega

/-- The token passed last ends behind the first one and in front of the next one. -/
theorem Ordered.last (ordered : c.Ordered) (h : c.Advances c') :
    ∃ t, c'.previous = some t ∧ c.span.stop ≤ t.span.stop ∧ t.span.stop ≤ c'.span.start := by
  obtain ⟨ts, t, last, only, inside, whole⟩ := h.whole
  obtain ⟨forward, apart⟩ := ordered
  rw [whole] at forward apart
  obtain ⟨_, behind, before⟩ := List.pairwise_append.mp apart
  have next := (List.pairwise_cons.mp behind).1 c'.peek c'.peek_mem
  refine ⟨t, last, ?_, next⟩
  by_cases empty : ts = []
  · exact Nat.le_of_eq (by rw [span, only empty])
  · have first := before c.peek (inside empty) t (by simp)
    have long := forward t (by simp)
    rw [span]
    omega

theorem Ordered.start_le (ordered : c.Ordered) (h : c.Reaches c') :
    c.span.start ≤ c'.span.start := by
  rcases h.eq_or_advances with rfl | further
  · exact Nat.le_refl _
  · obtain ⟨t, _, first, next⟩ := ordered.last further
    have forward := ordered.span_forward
    omega

/-! ## Stretches of tokens -/

/-- The stretch between two cursors goes from the first token to the last one. -/
theorem spanFrom_of_previous {t : Token} {s : Span} (last : c.previous = some t)
    (forward : s.start ≤ t.span.stop) : c.spanFrom s = { s with stop := t.span.stop } := by
  simp only [spanFrom, last, Option.map_some, Option.getD_some, Span.mk.injEq, true_and, and_true]
  omega

theorem spanFrom_spanFrom {s : Span} (h : c₁.Advances c) (c₂ : Cursor) :
    c.spanFrom (c₂.spanFrom s) = c.spanFrom s := by
  obtain ⟨_, t, _, last⟩ := h.exists_last
  simp [spanFrom, last]

/-- A single token is a stretch. -/
theorem Ordered.spanFrom_next (ordered : c.Ordered) (h : c.Advances c.next) :
    c.next.spanFrom c.span = c.span := by
  have inner : c.ahead = c.peek :: c.next.ahead := by
    apply ahead_eq_cons
    intro ended
    have shorter := h.length_lt
    rw [peek_kind_eq_end.mp ended] at shorter
    simp at shorter
  exact spanFrom_of_previous (previous_next inner) ordered.span_forward

/-- Two stretches, one behind the other, make one. -/
theorem Ordered.merge_spanFrom (ordered : c.Ordered) (left : c.Advances c₁)
    (mark : c₁.Reaches c₂) (right : c₂.Advances c') :
    (c₁.spanFrom c.span).merge (c'.spanFrom c₂.span) = c'.spanFrom c.span := by
  obtain ⟨t, last, first, before⟩ := ordered.last left
  have ordered₁ := ordered.advances left
  have ordered₂ := ordered₁.reaches mark
  obtain ⟨u, last', second, _⟩ := ordered₂.last right
  have forward := ordered.span_forward
  have between := ordered₁.start_le mark
  have forward' := ordered₂.span_forward
  rw [spanFrom_of_previous last (by omega), spanFrom_of_previous last' (by omega),
    spanFrom_of_previous last' (by omega)]
  simp only [Span.merge, Span.mk.injEq]
  refine ⟨by omega, by omega, if_pos (by omega)⟩

/-! ## Where an error shows -/

/-- The span of a token, or of a stretch of tokens, that was passed between the cursors or
comes next. -/
inductive Shows (c c' : Cursor) : Span → Prop where
  | token {c₁ : Cursor} : c.Reaches c₁ → c₁.Reaches c' → Shows c c' c₁.span
  | stretch {c₁ c₂ : Cursor} : c.Reaches c₁ → c₁.Advances c₂ → c₂.Reaches c' →
      Shows c c' (c₂.spanFrom c₁.span)

theorem Shows.earlier {s : Span} (before : c.Reaches c₁) (h : c₁.Shows c' s) : c.Shows c' s := by
  cases h with
  | token first last => exact .token (before.trans first) last
  | stretch first inside last => exact .stretch (before.trans first) inside last

theorem Shows.later {s : Span} (h : c.Shows c₁ s) (behind : c₁.Reaches c') : c.Shows c' s := by
  cases h with
  | token first last => exact .token first (last.trans behind)
  | stretch first inside last => exact .stretch first inside (last.trans behind)

/-- An error shows between its cursors and inside the input. -/
theorem Shows.bounds {s : Span} (h : c.Shows c' s) (ordered : c.Ordered) :
    c.span.start ≤ s.start ∧ s.start ≤ c'.span.start ∧ s.start ≤ s.stop ∧
      s.stop ≤ c.final.span.stop := by
  cases h with
  | token first last =>
      have ordered₁ := ordered.reaches first
      have inside := ordered₁.span_le_final
      rw [first.final_eq] at inside
      exact ⟨ordered.start_le first, ordered₁.start_le last, ordered₁.span_forward, inside⟩
  | stretch first inside last =>
      have ordered₁ := ordered.reaches first
      have ordered₂ := ordered₁.advances inside
      obtain ⟨t, previous, long, next⟩ := ordered₁.last inside
      have forward := ordered₁.span_forward
      have before := ordered.start_le first
      have behind := ordered₂.start_le last
      have forward' := ordered₂.span_forward
      have final := ordered₂.span_le_final
      rw [inside.reaches.final_eq, first.final_eq] at final
      rw [spanFrom_of_previous previous (by omega)]
      refine ⟨before, ?_, ?_, ?_⟩ <;> dsimp only <;> omega

theorem failure_span (c : Cursor) (expected : Expectation) :
    (c.failure expected).span = c.span := by
  simp only [failure]
  split <;> rfl

/-- What the error of a run between the cursors says about the tokens there. -/
structure Fails (c c' : Cursor) (e : ParseError) : Prop where
  reaches : c.Reaches c'
  shows : c.Ordered → c.Shows c' e.span
  genuine : c.Faithful → e.Genuine

theorem Fails.earlier {e : ParseError} (before : c.Reaches c₁) (h : c₁.Fails c' e) :
    c.Fails c' e where
  reaches := before.trans h.reaches
  shows ordered := (h.shows (ordered.reaches before)).earlier before
  genuine faithful := h.genuine (faithful.reaches before)

end Cursor

/-! ## Outcomes -/

/-- A run that starts at `c` ends there or further on. A value is good for the cursor at
which it is given, and an error shows between the two cursors. -/
inductive Outcome {α : Type} (c : Cursor) (good : α → Cursor → Prop) :
    EStateM.Result ParseError Cursor α → Prop where
  | ok {a : α} {c' : Cursor} : c.Reaches c' → good a c' → Outcome c good (.ok a c')
  | error {e : ParseError} {c' : Cursor} : c.Fails c' e → Outcome c good (.error e c')

namespace Outcome

open TwoScript.Parser

variable {α β σ : Type} {c c₁ c' : Cursor} {P P' : α → Cursor → Prop} {Q : β → Cursor → Prop}
  {r : EStateM.Result ParseError Cursor α}

theorem of_ok {a : α} (h : Outcome c P (.ok a c')) : c.Reaches c' ∧ P a c' := by
  cases h with
  | ok there good => exact ⟨there, good⟩

theorem of_error {e : ParseError} (h : Outcome c P (.error e c')) : c.Fails c' e := by
  cases h with
  | error fails => exact fails

/-- What is said of a run from a later cursor holds from an earlier one. -/
theorem earlier (before : c.Reaches c₁) (h : Outcome c₁ P r) : Outcome c P r := by
  cases h with
  | ok there good => exact .ok (before.trans there) good
  | error fails => exact .error (fails.earlier before)

theorem imp (h : Outcome c P r) (weaker : ∀ {a c'}, P a c' → P' a c') : Outcome c P' r := by
  cases h with
  | ok there good => exact .ok there (weaker good)
  | error fails => exact .error fails

/-- What follows a run is seen from where the run itself is seen. -/
theorem bind_seen {p : Parser α} {f : α → Parser β} (first : Outcome c P (p c₁))
    (rest : ∀ {a c₂}, c.Reaches c₂ → P a c₂ → Outcome c Q (f a c₂)) :
    Outcome c Q ((p >>= f) c₁) := by
  show Outcome c Q (EStateM.bind p f c₁)
  unfold EStateM.bind
  cases run : p c₁ with
  | ok a c₂ =>
      rw [run] at first
      obtain ⟨there, good⟩ := first.of_ok
      exact rest there good
  | error e c₂ =>
      rw [run] at first
      exact .error first.of_error

theorem bind {p : Parser α} {f : α → Parser β} (first : Outcome c P (p c))
    (rest : ∀ {a c₁}, c.Reaches c₁ → P a c₁ → Outcome c₁ Q (f a c₁)) :
    Outcome c Q ((p >>= f) c) :=
  first.bind_seen fun there good => (rest there good).earlier there

theorem map {p : Parser α} {f : α → β} (first : Outcome c P (p c))
    (values : ∀ {a c'}, P a c' → Q (f a) c') : Outcome c Q ((f <$> p) c) := by
  show Outcome c Q (EStateM.map f p c)
  unfold EStateM.map
  cases run : p c with
  | ok a c₁ =>
      rw [run] at first
      exact .ok first.of_ok.1 (values first.of_ok.2)
  | error e c₁ =>
      rw [run] at first
      exact .error first.of_error

/-! ## Errors -/

/-- An error that shows at a token passed before, or at the next one. -/
theorem error_at {e : ParseError} (there : c.Reaches c₁) (behind : c₁.Reaches c')
    (span : e.span = c₁.span) (genuine : c.Faithful → e.Genuine) :
    Outcome c P (.error e c') := by
  refine .error ⟨there.trans behind, fun _ => ?_, genuine⟩
  rw [span]
  exact .token there behind

/-- An operator is expected only where one comes next. -/
theorem fail (c : Cursor) {expected : Expectation} (other : expected ≠ .operator) :
    Outcome c P (.error (c.failure expected) c) :=
  error_at (.refl c) (.refl c) (c.failure_span expected) fun _ => c.genuine_failure other

/-- The token that is needed comes next, or the run fails there. -/
theorem expect {kind : Kind} {expected : Expectation} (inner : kind ≠ .endOfFile)
    (other : expected ≠ .operator)
    (next : c.peek.kind = kind → c.Advances c.next → Outcome c.next P r) :
    Outcome c P (if c.peek.kind = kind then r else .error (c.failure expected) c) := by
  split
  · rename_i mark
    have further := Cursor.advances_next mark inner
    exact (next mark further).earlier further.reaches
  · exact fail c other

/-! ## Loops -/

theorem optionally (kind : Kind) {p : Parser α} {P : α → Prop} (inner : kind ≠ .endOfFile)
    (reads : ∀ c, Outcome c (fun a _ => P a) (p c)) (c : Cursor) :
    Outcome c (fun r c' => ∀ a, r = some a → c.Advances c' ∧ P a)
      (Parser.optionally kind p c) := by
  simp only [Parser.optionally, accept_bind]
  split
  · rename_i mark
    have further := Cursor.advances_next mark inner
    refine (bind (reads c.next) fun {a c₁} there good => ?_).earlier further.reaches
    refine .ok (.refl c₁) fun b same => ?_
    cases same
    exact ⟨further.trans there, good⟩
  · exact .ok (.refl c) fun a none => by cases none

/-- Every step of a loop that gives something uses up a token, so the loop ends by itself. -/
theorem many {step : Parser (Option α)} {P : α → Prop}
    (steps : ∀ c, Outcome c (fun r c' => ∀ a, r = some a → c.Advances c' ∧ P a) (step c))
    (c : Cursor) : Outcome c (fun as _ => ∀ a ∈ as, P a) (Parser.many step c) := by
  induction length : c.ahead.length using Nat.strongRecOn generalizing c with
  | ind n ih =>
      have once := steps c
      rw [Parser.many]
      cases run : step c with
      | error e c₁ =>
          rw [run] at once
          exact .error once.of_error
      | ok r c₁ =>
          rw [run] at once
          obtain ⟨there, good⟩ := once.of_ok
          cases r with
          | none => exact .ok there fun a ha => by cases ha
          | some a =>
              obtain ⟨further, holds⟩ := good a rfl
              have shorter := further.length_lt
              have rest := ih c₁.ahead.length (by omega) c₁ rfl
              simp only [shorter, if_true]
              cases loop : Parser.many step c₁ with
              | ok as c₂ =>
                  rw [loop] at rest
                  obtain ⟨onward, all⟩ := rest.of_ok
                  exact .ok (there.trans onward) (List.forall_mem_cons.mpr ⟨holds, all⟩)
              | error e c₂ =>
                  rw [loop] at rest
                  exact .error (rest.of_error.earlier there)

theorem items {item : Parser α} {P : α → Prop}
    (reads : ∀ c, Outcome c (fun a c' => c.Advances c' ∧ P a) (item c)) (c : Cursor) :
    Outcome c (fun as _ => ∀ a ∈ as, P a) (Parser.items item c) := by
  refine many (fun c => ?_) c
  simp only [itemBeforeBrace, peek_bind, ite_run, pure_run]
  split
  · exact .ok (.refl c) fun a none => by cases none
  · refine (reads c).bind fun {a c₁} there good => .ok (.refl c₁) fun b same => ?_
    cases same
    exact good

theorem separated (close : Kind) {item : Parser α} {P : α → Prop}
    (reads : ∀ c, Outcome c (fun a c' => c.Advances c' ∧ P a) (item c)) (c : Cursor) :
    Outcome c (fun as _ => ∀ a ∈ as, P a) (Parser.separated close item c) := by
  simp only [Parser.separated, sees_bind, ite_run, pure_run]
  split
  · exact .ok (.refl c) fun a ha => by cases ha
  · refine (reads c).bind fun {a c₁} _ first => ?_
    have commas := optionally .comma (by decide) fun c => (reads c).imp And.right
    refine (many commas c₁).bind fun {as c₂} _ rest => ?_
    exact .ok (.refl c₂) (List.forall_mem_cons.mpr ⟨first.2, rest⟩)

/-- A value that is improved step by step stays good, and each step uses up a token. -/
theorem iterate {step : σ → Parser (Option σ)} {Q : σ → Cursor → Prop} {s : σ}
    (steps : ∀ s c₁, c.Reaches c₁ → Q s c₁ →
      Outcome c (fun r c₂ => (∀ s', r = some s' → c₁.Advances c₂ ∧ Q s' c₂) ∧
        (r = none → c₂ = c₁)) (step s c₁))
    (there : c.Reaches c₁) (start : Q s c₁) : Outcome c Q (Parser.iterate step s c₁) := by
  induction length : c₁.ahead.length using Nat.strongRecOn generalizing c₁ s with
  | ind n ih =>
      have once := steps s c₁ there start
      rw [Parser.iterate]
      cases run : step s c₁ with
      | error e c₂ =>
          rw [run] at once
          exact .error once.of_error
      | ok r c₂ =>
          rw [run] at once
          obtain ⟨onward, more, stays⟩ := once.of_ok
          cases r with
          | none =>
              obtain rfl := stays rfl
              exact .ok there start
          | some s' =>
              obtain ⟨further, good⟩ := more s' rfl
              have shorter := further.length_lt
              simp only [shorter, if_true]
              exact ih c₂.ahead.length (by omega) onward good rfl

end Outcome

end TwoScript
