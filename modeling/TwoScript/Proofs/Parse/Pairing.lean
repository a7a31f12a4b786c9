import TwoScript.Proofs.Parse.Source
import TwoScript.Proofs.Token.Concat
import TwoScript.Proofs.Tree.Relabel

/-!
# Two readings side by side

Two runs of a parser over tokens that look alike give results that look alike. A
`View` says what is compared of spans and texts. A `Pairing` says which cursors of
the two runs belong together, and the laws it satisfies are all that is ever used of
it: what follows from them is proved once for every pairing.
-/

namespace TwoScript

/-- What is compared of two readings: their spans and types after relabelling, and the
texts that errors quote. -/
structure View where
  left : Labels
  right : Labels
  text : String → String
  places : Place → Place → Prop
  types {t : Shape} : t.Lexed → t.kind = .identifier ∨ t.kind = .nullWord →
    left.type t.text = right.type t.text
  merge {a a' b b' : Span} : left.span a = right.span a' → left.span b = right.span b' →
    left.span (a.merge b) = right.span (a'.merge b')
  stretch {a a' b b' : Span} : left.span a = right.span a' → left.span b = right.span b' →
    left.span { a with stop := max b.stop a.start } =
      right.span { a' with stop := max b'.stop a'.start }
  inside {a a' : Span} : left.span a = right.span a' →
    places ⟨a.start + 1, a.line⟩ ⟨a'.start + 1, a'.line⟩
  after {p p' : Place} (cs : List Char) : places p p' → places (p.after cs) (p'.after cs)
  spans {p p' : Place} (cs : List Char) : places p p' →
    left.span (p.span cs) = right.span (p'.span cs)

namespace View

variable (v : View)

/-- Two tokens that look alike. Nothing but its span is ever seen of the end of the input. -/
structure Tokens (t t' : Token) : Prop where
  kind : t.kind = t'.kind
  literal : t.kind ≠ .endOfFile → t.literal = t'.literal
  span : v.left.span t.span = v.right.span t'.span
  text : t.kind ≠ .endOfFile → v.text t.text = v.text t'.text
  name : t.kind = .identifier → t.text = t'.text
  type : t.kind = .identifier ∨ t.kind = .nullWord → v.left.type t.text = v.right.type t'.text

def Errors (e e' : ParseError) : Prop :=
  e.relabel v.left.span v.text = e'.relabel v.right.span v.text

abbrev Exprs (e e' : Expr) : Prop :=
  e.relabel v.left = e'.relabel v.right

variable {v}

theorem Exprs.span {e e' : Expr} (h : v.Exprs e e') :
    v.left.span e.span = v.right.span e'.span := by
  rw [← Expr.span_relabel, ← Expr.span_relabel, h]

theorem Exprs.isAssignable {e e' : Expr} (h : v.Exprs e e') :
    e.isAssignable = e'.isAssignable := by
  rw [← @Expr.isAssignable_relabel v.left e, h, Expr.isAssignable_relabel]

theorem Exprs.ungrouped {e e' : Expr} (h : v.Exprs e e') : v.Exprs e.ungrouped e'.ungrouped := by
  rw [Exprs, ← Expr.ungrouped_relabel, h, Expr.ungrouped_relabel]

theorem Exprs.endsItself {e e' : Expr} (h : v.Exprs e e') :
    Grammar.endsItself e = Grammar.endsItself e' := by
  rw [← @endsItself_relabel v.left e, h, endsItself_relabel]

theorem Exprs.height {e e' : Expr} (h : v.Exprs e e') : e.height = e'.height := by
  rw [← Expr.height_relabel v.left e, h, Expr.height_relabel]

theorem Exprs.trailingHeight {e e' : Expr} (h : v.Exprs e e') :
    e.trailingHeight = e'.trailingHeight := by
  rw [← Expr.trailingHeight_relabel v.left e, h, Expr.trailingHeight_relabel]

end View

/-- Two tokens give the same name behind a dot, or end the input and give none. -/
def SameProperty (t t' : Token) : Prop :=
  t.text = t'.text ∨ t.kind = .endOfFile ∧ keyword? t.text = none ∧ keyword? t'.text = none

/-- How far two runs have come: whether nothing was read yet, the number of braces that
are open, and whether the input may be over. -/
structure Stage where
  fresh : Bool
  depth : Nat
  ended : Bool

/-- Which cursors of two runs belong together at which stage. The second run may have
more tokens behind those of the first, but it does not see them before the first run
ends. -/
structure Pairing (v : View) where
  rel : Stage → Cursor → Cursor → Prop
  extra : Nat
  length {s : Stage} {c d : Cursor} : rel s c d → d.ahead.length = c.ahead.length + extra
  peek {f : Bool} {k : Nat} {c d : Cursor} : rel ⟨f, k, false⟩ c d → v.Tokens c.peek d.peek
  plain {f : Bool} {k : Nat} {c d : Cursor} : rel ⟨f, k, false⟩ c d →
    c.peek.kind.isPlain = true → rel ⟨false, k, false⟩ c.next d.next
  opens {f : Bool} {k : Nat} {c d : Cursor} : rel ⟨f, k, false⟩ c d →
    c.peek.kind = .leftBrace → rel ⟨false, k + 1, false⟩ c.next d.next
  closes {f : Bool} {k : Nat} {c d : Cursor} : rel ⟨f, k + 1, false⟩ c d →
    c.peek.kind = .rightBrace → rel ⟨false, k, false⟩ c.next d.next
  ends {f : Bool} {k : Nat} {c d : Cursor} : rel ⟨f, k, false⟩ c d →
    c.peek.kind = .semicolon → rel ⟨false, k, true⟩ c.next d.next
  inner {f : Bool} {k : Nat} {c d : Cursor} : rel ⟨f, k + 1, true⟩ c d →
    rel ⟨f, k + 1, false⟩ c d
  anew {k : Nat} {b : Bool} {c d : Cursor} : rel ⟨false, k, b⟩ c d → rel ⟨true, k, b⟩ c d
  finish {f : Bool} {k : Nat} {c d : Cursor} : rel ⟨f, k, false⟩ c d → rel ⟨f, k, true⟩ c d
  spanFrom {k : Nat} {b : Bool} {c d : Cursor} {s s' : Span} : rel ⟨false, k, b⟩ c d →
    v.left.span s = v.right.span s' → v.left.span (c.spanFrom s) = v.right.span (d.spanFrom s')
  dot {f : Bool} {k : Nat} {c d : Cursor} : rel ⟨f, k, false⟩ c d → c.peek.kind = .dot →
    SameProperty c.next.peek d.next.peek
  property {f : Bool} {k : Nat} {c d : Cursor} : rel ⟨f, k, false⟩ c d → c.peek.kind = .dot →
    c.next.peek.kind = .identifier ∨ (keyword? c.next.peek.text).isSome = true →
    rel ⟨false, k, false⟩ c.next.next d.next.next

/-- Two results that look alike: both runs succeed at the given stage with values that
have the same image, or both fail inside the input. -/
inductive Agree {v : View} (P : Pairing v) {α γ : Type} (f g : α → γ) (s : Stage) :
    EStateM.Result ParseError Cursor α → EStateM.Result ParseError Cursor α → Prop where
  | ok {a b : α} {c d : Cursor} : f a = g b → P.rel s c d → Agree P f g s (.ok a c) (.ok b d)
  | error {e e' : ParseError} {c d : Cursor} {k : Nat} : v.Errors e e' →
      P.rel ⟨true, k, false⟩ c d → Agree P f g s (.error e c) (.error e' d)

namespace Agree

open TwoScript.Parser

variable {v : View} {P : Pairing v} {α β γ δ : Type} {f g : α → γ} {s s' : Stage}

/-- The two runs end in the same way. -/
theorem ends {r r' : EStateM.Result ParseError Cursor α} (h : Agree P f g s r r') :
    (∃ a b c d, r = .ok a c ∧ r' = .ok b d ∧ f a = g b ∧ P.rel s c d) ∨
      (∃ e e' c d k, r = .error e c ∧ r' = .error e' d ∧ v.Errors e e' ∧
        P.rel ⟨true, k, false⟩ c d) := by
  cases h with
  | ok same rel => exact .inl ⟨_, _, _, _, rfl, rfl, same, rel⟩
  | error same rel => exact .inr ⟨_, _, _, _, _, rfl, rfl, same, rel⟩

theorem bind {p q : Parser α} {p' q' : α → Parser β} {f' g' : β → δ} {c d : Cursor}
    (first : Agree P f g s (p c) (q d))
    (second : ∀ {a b c₁ d₁}, f a = g b → P.rel s c₁ d₁ →
      Agree P f' g' s' (p' a c₁) (q' b d₁)) :
    Agree P f' g' s' ((p >>= p') c) ((q >>= q') d) := by
  show Agree P f' g' s' (EStateM.bind p p' c) (EStateM.bind q q' d)
  unfold EStateM.bind
  rcases first.ends with ⟨a, b, c₁, d₁, left, right, same, rel⟩ |
    ⟨e, e', c₁, d₁, k, left, right, same, rel⟩
  · rw [left, right]
    exact second same rel
  · rw [left, right]
    exact .error same rel

/-- Weaker views of the values and a weaker stage. -/
theorem imp {f' g' : α → δ} {r r' : EStateM.Result ParseError Cursor α}
    (h : Agree P f g s r r') (values : ∀ {a b}, f a = g b → f' a = g' b)
    (stages : ∀ {c d}, P.rel s c d → P.rel s' c d) : Agree P f' g' s' r r' := by
  cases h with
  | ok same rel => exact .ok (values same) (stages rel)
  | error same rel => exact .error same rel

theorem map {p q : Parser α} {h h' : α → β} {f' g' : β → δ} {c d : Cursor}
    (first : Agree P f g s (p c) (q d)) (values : ∀ {a b}, f a = g b → f' (h a) = g' (h' b)) :
    Agree P f' g' s ((h <$> p) c) ((h' <$> q) d) := by
  show Agree P f' g' s (EStateM.map h p c) (EStateM.map h' q d)
  unfold EStateM.map
  rcases first.ends with ⟨a, b, c₁, d₁, left, right, same, rel⟩ |
    ⟨e, e', c₁, d₁, k, left, right, same, rel⟩
  · rw [left, right]
    exact .ok (values same) rel
  · rw [left, right]
    exact .error same rel

section

variable {c d : Cursor} {k : Nat} {fresh : Bool} (here : P.rel ⟨fresh, k, false⟩ c d)

include here

theorem failure (expected : Expectation) : v.Errors (c.failure expected) (d.failure expected) := by
  have token := P.peek here
  have kind := token.kind
  simp only [View.Errors, Cursor.failure]
  rw [← kind]
  by_cases ended : c.peek.kind = .endOfFile
  · simp [ended, ParseError.relabel, token.span]
  · have text := token.text ended
    cases c.peek.kind <;> simp [ParseError.relabel, token.span, text]

theorem fail {expected : Expectation} :
    Agree P f g s (.error (c.failure expected) c) (.error (d.failure expected) d) := by
  cases fresh with
  | true => exact .error (failure here expected) here
  | false => exact .error (failure here expected) (P.anew here)

/-- Both runs take the same way at a token. -/
theorem branch {kind : Kind} {r r' t t' : EStateM.Result ParseError Cursor α}
    (yes : c.peek.kind = kind → Agree P f g s r r')
    (no : c.peek.kind ≠ kind → Agree P f g s t t') :
    Agree P f g s (if c.peek.kind = kind then r else t) (if d.peek.kind = kind then r' else t') := by
  rw [← (P.peek here).kind]
  split
  · rename_i same
    exact yes same
  · rename_i other
    exact no other

/-- Both runs find the token they need, or fail there. -/
theorem guard {kind : Kind} {expected : Expectation}
    {r r' : EStateM.Result ParseError Cursor α}
    (next : c.peek.kind = kind → Agree P f g s r r') :
    Agree P f g s (if c.peek.kind = kind then r else .error (c.failure expected) c)
      (if d.peek.kind = kind then r' else .error (d.failure expected) d) :=
  branch here next fun _ => fail here

end

theorem optionally {kind : Kind} {p : Parser α} {c d : Cursor} {k : Nat}
    (here : P.rel ⟨false, k, false⟩ c d) (stays : P.rel s c d) (plain : kind.isPlain = true)
    (next : P.rel ⟨false, k, false⟩ c.next d.next → Agree P f g s (p c.next) (p d.next)) :
    Agree P (Option.map f) (Option.map g) s (Parser.optionally kind p c)
      (Parser.optionally kind p d) := by
  simp only [Parser.optionally, accept_bind]
  refine branch here (fun mark => ?_) fun _ => .ok rfl stays
  exact (next (P.plain here (by rw [mark]; exact plain))).map (congrArg some)

theorem many {step : Parser (Option α)} {c d : Cursor}
    (steps : ∀ {c d}, P.rel s c d →
      Agree P (Option.map f) (Option.map g) s (step c) (step d))
    (here : P.rel s c d) :
    Agree P (List.map f) (List.map g) s (Parser.many step c) (Parser.many step d) := by
  induction length : c.ahead.length using Nat.strongRecOn generalizing c d with
  | ind n ih =>
      have lengths := P.length here
      rw [Parser.many, Parser.many]
      rcases (steps here).ends with ⟨a, b, c₁, d₁, left, right, same, there⟩ |
        ⟨e, e', c₁, d₁, k, left, right, same, there⟩
      · have lengths₁ := P.length there
        rw [left, right]
        rcases a with _ | a <;> rcases b with _ | b
        · exact .ok rfl there
        · cases same
        · cases same
        · have same := Option.some.inj same
          simp only [lengths, lengths₁, Nat.add_lt_add_iff_right]
          split
          · rename_i shorter
            rcases (ih _ (by omega) there rfl).ends with
              ⟨as, bs, c₂, d₂, left, right, all, there⟩ |
              ⟨e, e', c₂, d₂, k, left, right, same, there⟩
            · rw [left, right]
              exact .ok (by simp [same, all]) there
            · rw [left, right]
              exact .error same there
          · exact .ok (by simp [same]) there
      · rw [left, right]
        exact .error same there

theorem iterate {step : α → Parser (Option α)} {c d : Cursor} {a b : α}
    (steps : ∀ {a b c d}, f a = g b → P.rel s c d →
      Agree P (Option.map f) (Option.map g) s (step a c) (step b d))
    (start : f a = g b) (here : P.rel s c d) :
    Agree P f g s (Parser.iterate step a c) (Parser.iterate step b d) := by
  induction length : c.ahead.length using Nat.strongRecOn generalizing c d a b with
  | ind n ih =>
      have lengths := P.length here
      rw [Parser.iterate, Parser.iterate]
      rcases (steps start here).ends with ⟨a₁, b₁, c₁, d₁, left, right, same, there⟩ |
        ⟨e, e', c₁, d₁, k, left, right, same, there⟩
      · have lengths₁ := P.length there
        rw [left, right]
        rcases a₁ with _ | a₁ <;> rcases b₁ with _ | b₁
        · exact .ok start there
        · cases same
        · cases same
        · have same := Option.some.inj same
          simp only [lengths, lengths₁, Nat.add_lt_add_iff_right]
          split
          · exact ih _ (by omega) same there rfl
          · exact .ok same there
      · rw [left, right]
        exact .error same there

theorem items {item : Parser α} {c d : Cursor} {k : Nat}
    (each : ∀ {c d}, P.rel ⟨false, k + 1, false⟩ c d →
      Agree P f g ⟨false, k + 1, true⟩ (item c) (item d))
    (here : P.rel ⟨false, k + 1, false⟩ c d) :
    Agree P (List.map f) (List.map g) ⟨false, k + 1, false⟩ (Parser.items item c)
      (Parser.items item d) := by
  refine many (fun {c d} here => ?_) here
  simp only [itemBeforeBrace, peek_bind]
  rw [← (P.peek here).kind]
  split
  · exact .ok rfl here
  · exact ((each here).imp id P.inner).map (congrArg some)

theorem separated {close : Kind} {item : Parser α} {c d : Cursor} {k : Nat}
    (each : ∀ {c d}, P.rel ⟨false, k, false⟩ c d →
      Agree P f g ⟨false, k, false⟩ (item c) (item d))
    (here : P.rel ⟨false, k, false⟩ c d) :
    Agree P (List.map f) (List.map g) ⟨false, k, false⟩ (Parser.separated close item c)
      (Parser.separated close item d) := by
  simp only [Parser.separated, sees_bind]
  rw [← (P.peek here).kind]
  split
  · exact .ok rfl here
  · refine (each here).bind fun same there => ?_
    refine map (many (fun here => optionally here here rfl each) there) fun all => ?_
    simp [same, all]

end Agree

/-! ## Readings of tokens that look alike -/

namespace View

variable (v : View)

/-- Tokens that look alike one by one, and have the same text behind a dot. -/
def Similar : Bool → List Token → List Token → Prop
  | _, [], [] => True
  | afterDot, t :: ts, t' :: ts' =>
    v.Tokens t t' ∧ (afterDot = true → t.text = t'.text) ∧ Similar (t.kind = .dot) ts ts'
  | _, _, _ => False

structure Ahead (c d : Cursor) : Prop where
  ahead : ∃ afterDot, v.Similar afterDot c.ahead d.ahead
  final : v.Tokens c.final d.final
  name : SameProperty c.final d.final

def Previous (c d : Cursor) : Prop :=
  match c.previous, d.previous with
  | some t, some t' => v.Tokens t t'
  | none, none => True
  | _, _ => False

variable {v}

theorem Similar.length_eq {b : Bool} {ts ts' : List Token} (h : v.Similar b ts ts') :
    ts'.length = ts.length := by
  induction ts generalizing b ts' with
  | nil => cases ts' with
    | nil => rfl
    | cons => cases h
  | cons t ts ih => cases ts' with
    | nil => cases h
    | cons t' ts' => simp [ih h.2.2]

/-- The next tokens look alike, and so does what is behind them. -/
theorem Ahead.cases {c d : Cursor} (h : v.Ahead c d) :
    (c.ahead = [] ∧ d.ahead = [] ∧ c.next = c ∧ d.next = d) ∨
      (c.ahead = c.peek :: c.next.ahead ∧ v.Tokens c.peek d.peek ∧
        v.Similar (c.peek.kind = .dot) c.next.ahead d.next.ahead ∧
        c.next.previous = some c.peek ∧ d.next.previous = some d.peek) := by
  obtain ⟨⟨b, similar⟩, _, _⟩ := h
  cases left : c.ahead with
  | nil => cases right : d.ahead with
    | nil => exact .inl ⟨rfl, rfl, Cursor.next_of_nil left, Cursor.next_of_nil right⟩
    | cons t' ts' =>
        rw [left, right] at similar
        cases similar
  | cons t ts => cases right : d.ahead with
    | nil =>
        rw [left, right] at similar
        cases similar
    | cons t' ts' =>
        rw [left, right] at similar
        rw [Cursor.peek_of_cons left, Cursor.peek_of_cons right, Cursor.previous_next left,
          Cursor.previous_next right, Cursor.ahead_next, Cursor.ahead_next, left, right]
        exact .inr ⟨rfl, similar.1, similar.2.2, rfl, rfl⟩

theorem Ahead.peek {c d : Cursor} (h : v.Ahead c d) : v.Tokens c.peek d.peek := by
  rcases h.cases with ⟨left, right, _⟩ | ⟨_, token, _⟩
  · rw [Cursor.peek_of_nil left, Cursor.peek_of_nil right]
    exact h.final
  · exact token

theorem Ahead.next {c d : Cursor} (h : v.Ahead c d) : v.Ahead c.next d.next := by
  rcases h.cases with ⟨_, _, left, right⟩ | ⟨_, _, similar, _⟩
  · rw [left, right]
    exact h
  · exact ⟨⟨_, similar⟩, by simpa using h.final, by simpa using h.name⟩

theorem Ahead.previous_next {c d : Cursor} (h : v.Ahead c d) (inner : c.peek.kind ≠ .endOfFile) :
    v.Previous c.next d.next := by
  rcases h.cases with ⟨left, _⟩ | ⟨_, token, _, left, right⟩
  · exact (inner (Cursor.peek_kind_eq_end.mpr left)).elim
  · rw [Previous, left, right]
    exact token

theorem Ahead.keeps_previous {c d : Cursor} (h : v.Ahead c d) (previous : v.Previous c d) :
    v.Previous c.next d.next := by
  rcases h.cases with ⟨_, _, left, right⟩ | ⟨_, token, _, left, right⟩
  · rw [left, right]
    exact previous
  · rw [Previous, left, right]
    exact token

theorem Ahead.dot {c d : Cursor} (h : v.Ahead c d) (dot : c.peek.kind = .dot) :
    SameProperty c.next.peek d.next.peek := by
  rcases h.cases with ⟨left, _⟩ | ⟨_, _, similar, _⟩
  · rw [Cursor.peek_kind_eq_end.mpr left] at dot
    cases dot
  · have names : SameProperty c.next.final d.next.final := by simpa using h.name
    cases left : c.next.ahead with
    | nil => cases right : d.next.ahead with
      | nil =>
          rw [Cursor.peek_of_nil left, Cursor.peek_of_nil right]
          exact names
      | cons t' ts' =>
          rw [left, right] at similar
          cases similar
    | cons t ts => cases right : d.next.ahead with
      | nil =>
          rw [left, right] at similar
          cases similar
      | cons t' ts' =>
          rw [left, right] at similar
          rw [Cursor.peek_of_cons left, Cursor.peek_of_cons right]
          exact .inl (similar.2.1 (by simp [dot]))

theorem Previous.spanFrom {c d : Cursor} {s s' : Span} (h : v.Previous c d)
    (start : v.left.span s = v.right.span s') :
    v.left.span (c.spanFrom s) = v.right.span (d.spanFrom s') := by
  simp only [Previous, Cursor.spanFrom] at *
  cases left : c.previous <;> cases right : d.previous <;> rw [left, right] at h
  · exact v.stretch start start
  · cases h
  · cases h
  · exact v.stretch start h.span

end View

/-- Cursors whose tokens look alike to the end. What was read last may differ only where
`start` tokens are ahead, at the beginning of the run. -/
def Pairing.alike (v : View) (start : Nat) : Pairing v where
  rel s c d := v.Ahead c d ∧ (v.Previous c d ∨ s.fresh = true ∧ c.ahead.length = start)
  extra := 0
  length h := by
    obtain ⟨⟨⟨_, similar⟩, _, _⟩, _⟩ := h
    exact similar.length_eq
  peek h := h.1.peek
  plain h kind :=
    ⟨h.1.next, .inl (h.1.previous_next fun ended => by rw [ended] at kind; cases kind)⟩
  opens h kind := ⟨h.1.next, .inl (h.1.previous_next (by simp [kind]))⟩
  closes h kind := ⟨h.1.next, .inl (h.1.previous_next (by simp [kind]))⟩
  ends h kind := ⟨h.1.next, .inl (h.1.previous_next (by simp [kind]))⟩
  inner h := h
  anew h := ⟨h.1, by simpa using .inl (h.2.resolve_right (by simp))⟩
  finish h := h
  spanFrom h start := (h.2.resolve_right (by simp)).spanFrom start
  dot h mark := h.1.dot mark
  property h mark _ :=
    ⟨h.1.next.next, .inl (h.1.next.keeps_previous (h.1.previous_next (by simp [mark])))⟩

/-! ## Readings of the same text -/

namespace View

variable {v : View}

theorem tokens_of_shape {t t' : Token} (shape : t.shape = t'.shape)
    (type : t.kind = .identifier ∨ t.kind = .nullWord → v.left.type t.text = v.right.type t.text)
    (span : v.left.span t.span = v.right.span t'.span) : v.Tokens t t' := by
  obtain ⟨kind, text, literal⟩ := Shape.mk.inj shape
  exact ⟨kind, fun _ => literal, span, fun _ => by rw [text], fun _ => text,
    fun name => by rw [type name, text]⟩

theorem similar_tokensFrom {p p' : Place} (cs : List Char) (h : v.places p p') :
    ∃ ts ts', tokensFrom p cs = ts ++ [endToken (p.after cs)] ∧
      tokensFrom p' cs = ts' ++ [endToken (p'.after cs)] ∧ ∀ b, v.Similar b ts ts' := by
  induction cs using lexemes_induction generalizing p p' with
  | blank cs split =>
      exact ⟨[], [], tokensFrom_of_split p split, tokensFrom_of_split p' split, fun _ => trivial⟩
  | lexeme cs blanks c rest split text ih =>
      have begins := v.after blanks h
      obtain ⟨ts, ts', left, right, similar⟩ := ih (v.after (Lexeme.read c rest).chars begins)
      refine ⟨(Lexeme.read c rest).token (p.after blanks) :: ts,
        (Lexeme.read c rest).token (p'.after blanks) :: ts', ?_, ?_, fun _ => ⟨?_, fun _ => rfl,
        similar _⟩⟩
      · rw [tokensFrom_of_split_cons p split, left, ← Place.after_append, ← Place.after_append,
          text]
        rfl
      · rw [tokensFrom_of_split_cons p' split, right, ← Place.after_append,
          ← Place.after_append, text]
        rfl
      · exact tokens_of_shape rfl (v.types ⟨c, rest, rfl⟩) (v.spans _ begins)

/-- The tokens of a text look alike wherever the text begins. -/
theorem ahead_ofTokens {p p' : Place} (cs : List Char) (h : v.places p p') :
    v.Ahead (Cursor.ofTokens (tokensFrom p cs)) (Cursor.ofTokens (tokensFrom p' cs)) := by
  obtain ⟨ts, ts', left, right, similar⟩ := similar_tokensFrom cs h
  obtain ⟨ahead, final⟩ := Cursor.ofTokens_eq left
  obtain ⟨ahead', final'⟩ := Cursor.ofTokens_eq right
  refine ⟨⟨false, by rw [ahead, ahead']; exact similar false⟩, ?_,
    .inl (by rw [final, final']; rfl)⟩
  rw [final, final']
  exact tokens_of_shape rfl (by simp [endToken]) (v.spans [] (v.after cs h))

end View

end TwoScript
