import TwoScript.Parse.Parser
import TwoScript.Proofs.Token.Shape

/-!
# Running parsers

Equations for one step of a parser, and what the loops do when they succeed. A run
that succeeds has read a stretch of tokens: `Cursor.Takes` says which.
-/

namespace TwoScript

namespace Parser

variable {α β : Type}

/-! ## Single steps -/

theorem pure_run (a : α) (c : Cursor) : (pure a : Parser α) c = .ok a c := rfl

theorem throw_run (e : ParseError) (c : Cursor) : (throw e : Parser α) c = .error e c := rfl

theorem here_bind (f : Span → Parser β) (c : Cursor) : (here >>= f) c = f c.span c := rfl

theorem peek_bind (f : Token → Parser β) (c : Cursor) : (peek >>= f) c = f c.peek c := rfl

theorem spanFrom_bind (start : Span) (f : Span → Parser β) (c : Cursor) :
    (spanFrom start >>= f) c = f (c.spanFrom start) c := rfl

theorem advance_bind (f : Token → Parser β) (c : Cursor) :
    (advance >>= f) c = f c.peek c.next := rfl

theorem discard_advance_bind (f : Unit → Parser β) (c : Cursor) :
    (discard advance >>= f) c = f () c.next := rfl

theorem sees_bind (kind : Kind) (f : Bool → Parser β) (c : Cursor) :
    (sees kind >>= f) c = f (decide (c.peek.kind = kind)) c := rfl

theorem accept_bind (kind : Kind) (f : Bool → Parser β) (c : Cursor) :
    (accept kind >>= f) c = if c.peek.kind = kind then f true c.next else f false c := by
  show EStateM.bind (accept kind) f c = _
  unfold EStateM.bind accept
  by_cases h : c.peek.kind = kind <;> simp [h]

theorem discard_accept_run (kind : Kind) (c : Cursor) :
    (discard (accept kind) : Parser Unit) c =
      .ok () (if c.peek.kind = kind then c.next else c) := by
  show EStateM.map _ (accept kind) c = _
  unfold EStateM.map accept
  by_cases h : c.peek.kind = kind <;> simp [h]

theorem discard_accept_bind (kind : Kind) (f : Unit → Parser β) (c : Cursor) :
    (discard (accept kind) >>= f) c = f () (if c.peek.kind = kind then c.next else c) := by
  show EStateM.bind (discard (accept kind)) f c = _
  unfold EStateM.bind
  rw [discard_accept_run]

theorem discard_expect_bind (kind : Kind) (expected : Expectation) (f : Unit → Parser β)
    (c : Cursor) :
    (discard (expect kind expected) >>= f) c =
      if c.peek.kind = kind then f () c.next else .error (c.failure expected) c := by
  show EStateM.bind (EStateM.map _ (expect kind expected)) f c = _
  unfold EStateM.bind EStateM.map expect
  by_cases h : c.peek.kind = kind <;> simp [h]

theorem name_bind (expected : Expectation) (f : String → Parser β) (c : Cursor) :
    (name expected >>= f) c =
      if c.peek.kind = .identifier then f c.peek.text c.next
      else .error (c.failure expected) c := by
  show EStateM.bind (EStateM.bind (expect .identifier expected) _) f c = _
  unfold EStateM.bind expect
  by_cases h : c.peek.kind = .identifier <;> simp [h, pure, EStateM.pure]

theorem ite_run {p : Prop} [Decidable p] (x y : Parser α) (c : Cursor) :
    (if p then x else y) c = if p then x c else y c := by
  split <;> rfl

theorem bind_assoc_run {γ : Type} (p : Parser α) (f : α → Parser β) (k : β → Parser γ)
    (c : Cursor) : ((p >>= f) >>= k) c = (p >>= fun a => f a >>= k) c := by
  show EStateM.bind (EStateM.bind p f) k c = EStateM.bind p (fun a => EStateM.bind (f a) k) c
  unfold EStateM.bind
  cases p c <;> rfl

/-! ## Success -/

theorem bind_ok {p : Parser α} {f : α → Parser β} {c c' : Cursor} {b : β} :
    (p >>= f) c = .ok b c' ↔ ∃ a c₁, p c = .ok a c₁ ∧ f a c₁ = .ok b c' := by
  show EStateM.bind p f c = _ ↔ _
  unfold EStateM.bind
  cases p c with
  | ok a c₁ =>
      constructor
      · intro h
        exact ⟨a, c₁, rfl, h⟩
      · rintro ⟨_, _, h, hf⟩
        cases h
        exact hf
  | error e c₁ => simp

theorem map_ok {p : Parser α} {f : α → β} {c c' : Cursor} {b : β} :
    (f <$> p) c = .ok b c' ↔ ∃ a, p c = .ok a c' ∧ f a = b := by
  show EStateM.map f p c = _ ↔ _
  unfold EStateM.map
  cases p c with
  | ok a c₁ =>
      constructor
      · intro h
        cases h
        exact ⟨a, rfl, rfl⟩
      · rintro ⟨_, h, rfl⟩
        cases h
        rfl
  | error e c₁ => simp

/-- A step that fails unless its condition holds. -/
theorem guarded_ok {p : Prop} [Decidable p] {r : EStateM.Result ParseError Cursor α}
    {e : ParseError} {c c' : Cursor} {a : α} :
    (if p then r else .error e c) = .ok a c' ↔ p ∧ r = .ok a c' := by
  split <;> simp_all

theorem ok_iff {a b : α} {c c' : Cursor} :
    (EStateM.Result.ok a c : EStateM.Result ParseError Cursor α) = .ok b c' ↔ a = b ∧ c = c' := by
  simp

/-- A step that fails when its condition holds. -/
theorem unless_ok {p : Prop} [Decidable p] {r : EStateM.Result ParseError Cursor α}
    {e : ParseError} {c c' : Cursor} {a : α} :
    (if p then .error e c else r) = .ok a c' ↔ ¬p ∧ r = .ok a c' := by
  split <;> simp_all

theorem unexpected_run (expected : Expectation) (c : Cursor) :
    (unexpected expected : Parser α) c = .error (c.failure expected) c := rfl

theorem accept_ok {kind : Kind} {c c' : Cursor} {found : Bool} :
    accept kind c = .ok found c' ↔
      (c.peek.kind = kind ∧ true = found ∧ c.next = c') ∨
        (c.peek.kind ≠ kind ∧ false = found ∧ c = c') := by
  unfold accept
  by_cases h : c.peek.kind = kind <;> simp [h]

theorem optionally_ok {kind : Kind} {p : Parser α} {c c' : Cursor} {r : Option α} :
    optionally kind p c = .ok r c' ↔
      (c.peek.kind = kind ∧ ∃ a, p c.next = .ok a c' ∧ some a = r) ∨
        (c.peek.kind ≠ kind ∧ none = r ∧ c = c') := by
  by_cases h : c.peek.kind = kind
  · simp [optionally, accept_bind, h, map_ok]
  · simp [optionally, accept_bind, h, pure_run]

theorem itemBeforeBrace_ok {item : Parser α} {c c' : Cursor} {r : Option α} :
    itemBeforeBrace item c = .ok r c' ↔
      ((c.peek.kind = .rightBrace ∨ c.peek.kind = .endOfFile) ∧ none = r ∧ c = c') ∨
        (c.peek.kind ≠ .rightBrace ∧ c.peek.kind ≠ .endOfFile ∧
          ∃ a, item c = .ok a c' ∧ some a = r) := by
  by_cases h : c.peek.kind = .rightBrace ∨ c.peek.kind = .endOfFile
  · simp [itemBeforeBrace, peek_bind, h, pure_run]
    grind
  · simp only [itemBeforeBrace, peek_bind, h]
    simp [map_ok]
    grind

theorem separated_ok {close : Kind} {item : Parser α} {c c' : Cursor} {items : List α} :
    separated close item c = .ok items c' ↔
      (c.peek.kind = close ∧ [] = items ∧ c = c') ∨
        (c.peek.kind ≠ close ∧ ∃ first c₁, item c = .ok first c₁ ∧
          ∃ rest, many (optionally .comma item) c₁ = .ok rest c' ∧ first :: rest = items) := by
  by_cases h : c.peek.kind = close
  · simp [separated, sees_bind, h, pure_run]
  · simp [separated, sees_bind, h, bind_ok, map_ok]

/-! ## Loops

A loop stops when its step gives nothing, and also behind a step that uses up no tokens. -/

inductive Collects (step : Parser (Option α)) : Cursor → List α → Cursor → Prop where
  | stop {c c' : Cursor} : step c = .ok none c' → Collects step c [] c'
  | stuck {c c' : Cursor} {a : α} : step c = .ok (some a) c' →
      ¬c'.ahead.length < c.ahead.length → Collects step c [a] c'
  | more {c c₁ c' : Cursor} {a : α} {as : List α} : step c = .ok (some a) c₁ →
      c₁.ahead.length < c.ahead.length → Collects step c₁ as c' → Collects step c (a :: as) c'

inductive Improves {σ : Type} (step : σ → Parser (Option σ)) :
    σ → Cursor → σ → Cursor → Prop where
  | stop {s : σ} {c c' : Cursor} : step s c = .ok none c' → Improves step s c s c'
  | stuck {s s' : σ} {c c' : Cursor} : step s c = .ok (some s') c' →
      ¬c'.ahead.length < c.ahead.length → Improves step s c s' c'
  | more {s s₁ s' : σ} {c c₁ c' : Cursor} : step s c = .ok (some s₁) c₁ →
      c₁.ahead.length < c.ahead.length → Improves step s₁ c₁ s' c' → Improves step s c s' c'

theorem many_ok {step : Parser (Option α)} {c c' : Cursor} {as : List α} :
    many step c = .ok as c' ↔ Collects step c as c' := by
  constructor
  · intro run
    induction length : c.ahead.length using Nat.strongRecOn generalizing c as with
    | ind n ih =>
        rw [many] at run
        split at run
        · cases run
        · rename_i stop
          cases run
          exact .stop stop
        · rename_i a c₁ first
          split at run
          · rename_i shorter
            split at run
            · rename_i rest
              cases run
              exact .more first shorter (ih _ (by omega) rest rfl)
            · cases run
          · rename_i stuck
            cases run
            exact .stuck first stuck
  · intro run
    induction run with
    | stop stop => rw [many, stop]
    | stuck first stuck =>
        rw [many, first]
        simp [stuck]
    | more first shorter _ ih =>
        rw [many, first]
        simp [shorter, ih]

theorem iterate_ok {σ : Type} {step : σ → Parser (Option σ)} {s s' : σ} {c c' : Cursor} :
    iterate step s c = .ok s' c' ↔ Improves step s c s' c' := by
  constructor
  · intro run
    induction length : c.ahead.length using Nat.strongRecOn generalizing c s with
    | ind n ih =>
        rw [iterate] at run
        split at run
        · cases run
        · rename_i stop
          cases run
          exact .stop stop
        · rename_i s₁ c₁ first
          split at run
          · rename_i shorter
            exact .more first shorter (ih _ (by omega) run rfl)
          · rename_i stuck
            cases run
            exact .stuck first stuck
  · intro run
    induction run with
    | stop stop => rw [iterate, stop]
    | stuck first stuck =>
        rw [iterate, first]
        simp [stuck]
    | more first shorter _ ih =>
        rw [iterate, first]
        simp [shorter, ih]

/-- A run of `many` that goes on while tokens are used up and ends when `step` gives
nothing. -/
inductive Repeats (step : Parser (Option α)) : Cursor → List α → Cursor → Prop where
  | nil {c c' : Cursor} : step c = .ok none c' → Repeats step c [] c'
  | cons {c c₁ c' : Cursor} {a : α} {as : List α} : step c = .ok (some a) c₁ →
      c₁.ahead.length < c.ahead.length → Repeats step c₁ as c' → Repeats step c (a :: as) c'

inductive Grows {σ : Type} (step : σ → Parser (Option σ)) :
    σ → Cursor → σ → Cursor → Prop where
  | done {s : σ} {c c' : Cursor} : step s c = .ok none c' → Grows step s c s c'
  | more {s s₁ s' : σ} {c c₁ c' : Cursor} : step s c = .ok (some s₁) c₁ →
      c₁.ahead.length < c.ahead.length → Grows step s₁ c₁ s' c' → Grows step s c s' c'

theorem Repeats.many_ok {step : Parser (Option α)} {c c' : Cursor} {as : List α}
    (h : Repeats step c as c') : many step c = .ok as c' := by
  refine Parser.many_ok.mpr ?_
  induction h with
  | nil stop => exact .stop stop
  | cons first shorter _ ih => exact .more first shorter ih

theorem repeats_of_many_ok {step : Parser (Option α)} (inv : Cursor → Prop)
    {c c' : Cursor} {as : List α}
    (keeps : ∀ c a c', inv c → step c = .ok (some a) c' →
      inv c' ∧ c'.ahead.length < c.ahead.length)
    (start : inv c) (h : many step c = .ok as c') : Repeats step c as c' := by
  induction many_ok.mp h with
  | stop stop => exact .nil stop
  | stuck first stuck => exact absurd (keeps _ _ _ start first).2 stuck
  | more first shorter rest ih =>
      exact .cons first shorter (ih (keeps _ _ _ start first).1 (many_ok.mpr rest))

theorem Grows.iterate_ok {σ : Type} {step : σ → Parser (Option σ)} {s s' : σ}
    {c c' : Cursor} (h : Grows step s c s' c') : iterate step s c = .ok s' c' := by
  refine Parser.iterate_ok.mpr ?_
  induction h with
  | done stop => exact .stop stop
  | more first shorter _ ih => exact .more first shorter ih

theorem grows_of_iterate_ok {σ : Type} {step : σ → Parser (Option σ)}
    (inv : σ → Cursor → Prop) {s s' : σ} {c c' : Cursor}
    (keeps : ∀ s c s₁ c₁, inv s c → step s c = .ok (some s₁) c₁ →
      inv s₁ c₁ ∧ c₁.ahead.length < c.ahead.length)
    (start : inv s c) (h : iterate step s c = .ok s' c') : Grows step s c s' c' := by
  induction iterate_ok.mp h with
  | stop stop => exact .done stop
  | stuck first stuck => exact absurd (keeps _ _ _ _ start first).2 stuck
  | more first shorter rest ih =>
      exact .more first shorter (ih (keeps _ _ _ _ start first).1 (iterate_ok.mpr rest))

/-- What a loop keeps, it keeps up to the step that gives nothing. -/
theorem Grows.invariant {σ : Type} {step : σ → Parser (Option σ)}
    {inv : σ → Cursor → Prop} {s s' : σ} {c c' : Cursor} (h : Grows step s c s' c')
    (keeps : ∀ s c s₁ c₁, inv s c → step s c = .ok (some s₁) c₁ → inv s₁ c₁)
    (start : inv s c) : ∃ c₁, inv s' c₁ ∧ step s' c₁ = .ok none c' := by
  induction h with
  | done stop => exact ⟨_, start, stop⟩
  | more first _ _ ih => exact ih (keeps _ _ _ _ start first)

end Parser

namespace Cursor

/-! ## Tokens read -/

theorem peek_of_nil {c : Cursor} (h : c.ahead = []) : c.peek = c.final := by
  simp [peek, h]

theorem peek_of_cons {c : Cursor} {t : Token} {ts : List Token} (h : c.ahead = t :: ts) :
    c.peek = t := by
  simp [peek, h]

theorem peek_kind_eq_end {c : Cursor} : c.peek.kind = .endOfFile ↔ c.ahead = [] := by
  constructor
  · intro h
    cases ahead : c.ahead with
    | nil => rfl
    | cons t ts =>
        rw [peek_of_cons ahead] at h
        exact (c.inner t (by simp [ahead]) h).elim
  · intro h
    rw [peek_of_nil h]
    exact c.ends

theorem ahead_eq_cons {c : Cursor} (h : c.peek.kind ≠ .endOfFile) :
    c.ahead = c.peek :: c.next.ahead := by
  cases ahead : c.ahead with
  | nil => exact (h (peek_kind_eq_end.mpr ahead)).elim
  | cons t ts => simp [peek_of_cons ahead, ahead]

theorem peek_mem_ahead {c : Cursor} (h : c.peek.kind ≠ .endOfFile) : c.peek ∈ c.ahead := by
  rw [ahead_eq_cons h]
  exact List.mem_cons_self

/-- Reading the shapes `ts` from the cursor ends at the other one. -/
def Takes : Cursor → List Shape → Cursor → Prop
  | c, [], c' => c = c'
  | c, s :: ts, c' => c.peek.shape = s ∧ s.kind ≠ .endOfFile ∧ c.next.Takes ts c'

@[simp] theorem takes_nil {c c' : Cursor} : c.Takes [] c' ↔ c = c' := Iff.rfl

@[simp] theorem takes_cons {c c' : Cursor} {s : Shape} {ts : List Shape} :
    c.Takes (s :: ts) c' ↔ c.peek.shape = s ∧ s.kind ≠ .endOfFile ∧ c.next.Takes ts c' :=
  Iff.rfl

theorem takes_append {c c' : Cursor} {ts us : List Shape} :
    c.Takes (ts ++ us) c' ↔ ∃ c₁, c.Takes ts c₁ ∧ c₁.Takes us c' := by
  induction ts generalizing c with
  | nil => simp
  | cons s ts ih =>
      simp only [List.cons_append, takes_cons, ih]
      constructor
      · rintro ⟨same, inner, c₁, h₁, h₂⟩
        exact ⟨c₁, ⟨same, inner, h₁⟩, h₂⟩
      · rintro ⟨c₁, ⟨same, inner, h₁⟩, h₂⟩
        exact ⟨same, inner, c₁, h₁, h₂⟩

theorem Takes.trans {c c₁ c' : Cursor} {ts us : List Shape} (h₁ : c.Takes ts c₁)
    (h₂ : c₁.Takes us c') : c.Takes (ts ++ us) c' :=
  takes_append.mpr ⟨c₁, h₁, h₂⟩

theorem takes_next {c : Cursor} (h : c.peek.kind ≠ .endOfFile) :
    c.Takes [c.peek.shape] c.next :=
  ⟨rfl, h, rfl⟩

theorem Takes.ahead_eq {c c' : Cursor} {ts : List Shape} (h : c.Takes ts c') :
    ∃ tokens, c.ahead = tokens ++ c'.ahead ∧ tokens.map Token.shape = ts := by
  induction ts generalizing c with
  | nil =>
      cases h
      exact ⟨[], rfl, rfl⟩
  | cons s ts ih =>
      obtain ⟨same, inner, rest⟩ := h
      obtain ⟨tokens, ahead, shapes⟩ := ih rest
      refine ⟨c.peek :: tokens, ?_, by simp [same, shapes]⟩
      rw [ahead_eq_cons (by rw [← same] at inner; exact inner), ahead, List.cons_append]

theorem Takes.length_eq {c c' : Cursor} {ts : List Shape} (h : c.Takes ts c') :
    c.ahead.length = ts.length + c'.ahead.length := by
  obtain ⟨tokens, ahead, shapes⟩ := h.ahead_eq
  rw [ahead, List.length_append, ← shapes, List.length_map]

theorem Takes.mem_ahead {c c' : Cursor} {ts : List Shape} (h : c.Takes ts c') {t : Token}
    (ht : t ∈ c'.ahead) : t ∈ c.ahead := by
  obtain ⟨tokens, ahead, _⟩ := h.ahead_eq
  rw [ahead]
  exact List.mem_append_right tokens ht

theorem Takes.final_eq {c c' : Cursor} {ts : List Shape} (h : c.Takes ts c') :
    c'.final = c.final := by
  induction ts generalizing c with
  | nil => rw [takes_nil.mp h]
  | cons s ts ih => rw [ih h.2.2, next_final]

/-- The cursor behind the shapes at the front of what is ahead. -/
theorem exists_takes {c : Cursor} {ts us : List Shape}
    (h : c.ahead.map Token.shape = ts ++ us) :
    ∃ c', c.Takes ts c' ∧ c'.ahead.map Token.shape = us := by
  induction ts generalizing c with
  | nil => exact ⟨c, rfl, h⟩
  | cons s ts ih =>
      cases ahead : c.ahead with
      | nil => simp [ahead] at h
      | cons t rest =>
          have first : c.peek = t := peek_of_cons ahead
          have inner := c.inner t (by simp [ahead])
          rw [ahead, List.map_cons, List.cons_append, List.cons.injEq] at h
          obtain ⟨c', taken, left⟩ := ih (c := c.next) (by simpa [ahead] using h.2)
          refine ⟨c', ⟨by rw [first, h.1], ?_, taken⟩, left⟩
          rw [← h.1]
          exact inner

/-- The other cursor is further on or at the same place. -/
def Reaches (c c' : Cursor) : Prop :=
  ∃ ts, c.Takes ts c'

def Advances (c c' : Cursor) : Prop :=
  ∃ ts, ts ≠ [] ∧ c.Takes ts c'

theorem Reaches.refl (c : Cursor) : c.Reaches c := ⟨[], rfl⟩

theorem Reaches.trans {c c₁ c' : Cursor} (h₁ : c.Reaches c₁) (h₂ : c₁.Reaches c') :
    c.Reaches c' := by
  obtain ⟨ts, h₁⟩ := h₁
  obtain ⟨us, h₂⟩ := h₂
  exact ⟨ts ++ us, h₁.trans h₂⟩

theorem Advances.reaches {c c' : Cursor} (h : c.Advances c') : c.Reaches c' := by
  obtain ⟨ts, _, taken⟩ := h
  exact ⟨ts, taken⟩

theorem Advances.trans {c c₁ c' : Cursor} (h₁ : c.Advances c₁) (h₂ : c₁.Reaches c') :
    c.Advances c' := by
  obtain ⟨ts, nonempty, h₁⟩ := h₁
  obtain ⟨us, h₂⟩ := h₂
  exact ⟨ts ++ us, by simp [nonempty], h₁.trans h₂⟩

theorem Reaches.trans_advances {c c₁ c' : Cursor} (h₁ : c.Reaches c₁) (h₂ : c₁.Advances c') :
    c.Advances c' := by
  obtain ⟨ts, h₁⟩ := h₁
  obtain ⟨us, nonempty, h₂⟩ := h₂
  exact ⟨ts ++ us, by simp [nonempty], h₁.trans h₂⟩

theorem advances_next {c : Cursor} {kind : Kind} (h : c.peek.kind = kind)
    (inner : kind ≠ .endOfFile) : c.Advances c.next :=
  ⟨[c.peek.shape], by simp, takes_next (by rw [h]; exact inner)⟩

theorem Advances.length_lt {c c' : Cursor} (h : c.Advances c') :
    c'.ahead.length < c.ahead.length := by
  obtain ⟨ts, nonempty, taken⟩ := h
  have whole := taken.length_eq
  have positive := List.length_pos_iff.mpr nonempty
  omega

end Cursor

end TwoScript
