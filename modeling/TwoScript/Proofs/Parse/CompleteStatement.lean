import TwoScript.Proofs.Parse.Complete

/-!
# Reading what statements are written with

Statements and programs without selections are read back from their tokens, up to
spans. The parentheses around a condition take one level of the grammar and none of
the tree, which is why a statement needs one level more than it is high.
-/

namespace TwoScript

/-! ## First tokens -/

theorem Kind.ne_of_beginsExpr {kind : Kind} (h : kind.beginsExpr = true) :
    kind ≠ .rightBrace ∧ kind ≠ .semicolon ∧ goesOn kind = false ∧
      Grammar.opensStatement kind = false := by
  cases kind <;> simp_all [beginsExpr, goesOn, Grammar.opensStatement]

theorem asyncYields_begins {async : Bool} {as : List Shape} (k : Shape) (rs : List Shape)
    (h : asyncYields async as) : ∃ t rest, as ++ k :: rs = t :: rest ∧
      (t = k ∨ t.kind = .asyncWord) := by
  cases async with
  | false =>
      rw [asyncYields] at h
      subst h
      exact ⟨k, rs, rfl, .inl rfl⟩
  | true =>
      obtain ⟨t, rfl, kind⟩ := h
      exact ⟨t, k :: rs, rfl, .inr kind⟩

/-- No statement begins with a closing brace or with a word that goes on with the
statement in front of it. -/
theorem Statement.begins_of_yields {s : Statement} {ts : List Shape} (h : s.Yields ts) :
    ∃ t rest, ts = t :: rest ∧ t.kind ≠ .rightBrace ∧ goesOn t.kind = false := by
  cases s with
  | function _ routine =>
      obtain ⟨as, k, rs, rfl, async, kind, _⟩ := h
      obtain ⟨t, rest, whole, rfl | word⟩ := asyncYields_begins k rs async
      · exact ⟨t, rest, whole, by simp [kind], by rw [kind]; rfl⟩
      · exact ⟨t, rest, whole, by simp [word], by rw [word]; rfl⟩
  | classDecl _ _ _ =>
      obtain ⟨k, t, ms, rfl, kind, _⟩ := h
      exact ⟨k, _, rfl, by simp [kind], by rw [kind]; rfl⟩
  | declare _ _ _ _ _ =>
      obtain ⟨k, t, us, vs, r, rfl, kind, _⟩ := h
      rcases kind with ⟨kind, _⟩ | ⟨kind, _⟩
      · exact ⟨k, _, rfl, by simp [kind], by rw [kind]; rfl⟩
      · exact ⟨k, _, rfl, by simp [kind], by rw [kind]; rfl⟩
  | conditional _ _ _ _ =>
      obtain ⟨k, cs, bs, os, rfl, kind, _⟩ := h
      exact ⟨k, _, rfl, by simp [kind], by rw [kind]; rfl⟩
  | attempt _ _ _ _ =>
      obtain ⟨k, bs, hs, fs, rfl, kind, _⟩ := h
      exact ⟨k, _, rfl, by simp [kind], by rw [kind]; rfl⟩
  | returning _ value =>
      cases value with
      | none =>
          obtain ⟨k, r, rfl, kind, _⟩ := h
          exact ⟨k, _, rfl, by simp [kind], by rw [kind]; rfl⟩
      | some value =>
          obtain ⟨k, ms, r, rfl, kind, _⟩ := h
          exact ⟨k, _, rfl, by simp [kind], by rw [kind]; rfl⟩
  | block _ _ =>
      obtain ⟨k, ms, r, rfl, kind, _⟩ := h
      exact ⟨k, _, rfl, by simp [kind], by rw [kind]; rfl⟩
  | expression _ value =>
      obtain ⟨vs, r, rfl, yields, _⟩ := h
      obtain ⟨t, rest, rfl, kind⟩ := value.begins_of_yields vs yields
      have ⟨noBrace, _, goesOn, _⟩ := Kind.ne_of_beginsExpr kind
      exact ⟨t, rest ++ [r], rfl, noBrace, goesOn⟩
  | failed _ => exact h.elim

theorem Parameter.begins_of_yields {p : Parameter} {ts : List Shape} (h : p.Yields ts) :
    ∃ t rest, ts = t :: rest ∧ t.kind = .identifier := by
  obtain ⟨name, type, default⟩ := p
  obtain ⟨t, us, vs, whole, kind, _⟩ := h
  exact ⟨t, us ++ vs, whole, kind⟩

def MethodYields (r : Routine) (ts : List Shape) : Prop :=
  ∃ as ks ms, ts = as ++ (ks ++ ms) ∧ asyncYields r.async as ∧
    (ks = [] ∨ ∃ k, ks = [k] ∧ k.kind = .functionWord) ∧ r.Yields ms

theorem methodsYield_iff {methods : List Routine} {ts : List Shape} :
    methodsYield methods ts ↔ SequenceYields MethodYields methods ts := by
  induction methods generalizing ts with
  | nil => exact Iff.rfl
  | cons r rs ih =>
      simp only [methodsYield, SequenceYields, MethodYields, ih]
      constructor
      · rintro ⟨as, ks, ms, us, rfl, async, word, yields, rest⟩
        exact ⟨as ++ (ks ++ ms), us, by simp, ⟨as, ks, ms, rfl, async, word, yields⟩, rest⟩
      · rintro ⟨ls, us, rfl, ⟨as, ks, ms, rfl, async, word, yields⟩, rest⟩
        exact ⟨as, ks, ms, us, by simp, async, word, yields, rest⟩

theorem Routine.begins_of_yields {r : Routine} {ts : List Shape} (h : r.Yields ts) :
    ∃ t rest, ts = t :: rest ∧ t.kind = .identifier := by
  obtain ⟨name, params, returns, body, async⟩ := r
  obtain ⟨t, ps, rs, bs, whole, kind, _⟩ := h
  exact ⟨t, _, whole, kind⟩

theorem MethodYields.begins {r : Routine} {ts : List Shape} (h : MethodYields r ts) :
    ∃ t rest, ts = t :: rest ∧ t.kind ≠ .rightBrace := by
  obtain ⟨as, ks, ms, rfl, async, word, yields⟩ := h
  obtain ⟨u, rest, rfl, name⟩ := r.begins_of_yields yields
  rcases word with rfl | ⟨k, rfl, kind⟩
  · obtain ⟨t, us, whole, rfl | mark⟩ := asyncYields_begins u rest async
    · exact ⟨t, us, whole, by simp [name]⟩
    · exact ⟨t, us, whole, by simp [mark]⟩
  · obtain ⟨t, us, whole, rfl | mark⟩ := asyncYields_begins k (u :: rest) async
    · exact ⟨t, us, whole, by simp [kind]⟩
    · exact ⟨t, us, whole, by simp [mark]⟩

theorem Expr.assignment_lt_head {e : Expr} (h : e.isAssignment = false) : .assignment < e.head := by
  cases e with
  | binary _ op _ _ => cases op <;> simp only [head] <;> decide
  | assign _ _ _ _ => cases h
  | _ => simp only [head]; decide

namespace Grammar.Reads

open TwoScript.Parser

variable {g : Grammar} {room : Nat} {c c' : Cursor} {ts : List Shape}

/-! ## Blocks -/

theorem statements (reads : g.Reads room) {body : List Statement}
    (every : bodyEvery readable body) (height : bodyHeight body + 1 < room)
    (h : bodyYields body ts) (taken : c.Takes ts c')
    (ends : c'.peek.kind = .rightBrace ∨ c'.peek.kind = .endOfFile) :
    ∃ body', items g.statement c = .ok body' c' ∧
      bodyRelabel .bare body' = bodyRelabel .bare body := by
  simp only [bodyRelabel_eq_map]
  refine items_read _ (fun kind => goesOn kind = false) (fun s hs us d d' yields inside
    follows => ?_) (fun s us yields => s.begins_of_yields yields) (bodyYields_iff.mp h) taken ends ?_
  · have := bodyHeight_le_iff.mp (Nat.le_refl _) s hs
    exact reads.statement (bodyEvery_iff.mp every s hs) (by omega) yields inside follows
  · rcases ends with kind | kind <;> rw [kind] <;> rfl

theorem block (reads : g.Reads room) {body : List Statement}
    (every : bodyEvery readable body) (height : bodyHeight body + 1 < room)
    (h : Enclosed .leftBrace .rightBrace (bodyYields body) ts) (taken : c.Takes ts c') :
    ∃ body', g.block c = .ok body' c' ∧ bodyRelabel .bare body' = bodyRelabel .bare body := by
  obtain ⟨opens, ms, c₁, yields, within, closes, last⟩ := taken.enclosed h
  obtain ⟨body', run, same⟩ := reads.statements every height yields within (.inl closes)
  exact ⟨body', block_ok.mpr ⟨opens, body', c₁, run, closes, rfl, last⟩, same⟩

theorem blockStatement (reads : g.Reads room) {s : Span} {body : List Statement}
    (every : bodyEvery readable body) (height : bodyHeight body + 1 < room)
    (h : Enclosed .leftBrace .rightBrace (bodyYields body) ts) (taken : c.Takes ts c') :
    ∃ s', g.blockStatement c = .ok s' c' ∧
      s'.relabel .bare = (Statement.block s body).relabel .bare := by
  obtain ⟨body', run, same⟩ := reads.block every height h taken
  refine ⟨_, blockStatement_ok.mpr ⟨body', c', run, rfl, rfl⟩, ?_⟩
  rw [Statement.relabel, same]
  rfl

/-! ## Variables -/

theorem typed {mark : Kind} {type : Option String} (h : typeYields mark type ts)
    (taken : c.Takes ts c') (behind : c'.peek.kind ≠ mark) :
    optionally mark typeName c = .ok type c' := by
  cases type with
  | none =>
      rw [typeYields] at h
      subst h
      obtain rfl := Cursor.takes_nil.mp taken
      exact optionally_ok.mpr (.inr ⟨behind, rfl, rfl⟩)
  | some name =>
      obtain ⟨m, t, rfl, kind, word, text⟩ := h
      have second : c.next.peek.shape = t := taken.2.2.1
      rw [← second] at word text
      exact optionally_ok.mpr (.inl ⟨by rw [taken.kind, kind], name,
        typeName_ok.mpr ⟨word, text, taken.2.2.2.2⟩, rfl⟩)

theorem valueYields_begins {value : Option Expr} {vs : List Shape} {r : Shape}
    (h : valueYields value vs) : ∃ t rest, vs ++ [r] = t :: rest ∧ (t = r ∨ t.kind = .equal) := by
  cases value with
  | none =>
      rw [valueYields] at h
      subst h
      exact ⟨r, [], rfl, .inl rfl⟩
  | some e =>
      obtain ⟨t, us, rfl, kind, _⟩ := h
      exact ⟨t, us ++ [r], rfl, .inr kind⟩

theorem initialValue (reads : g.Reads room) {constant : Bool} {initial : Option Expr}
    (every : ∀ e, initial = some e → e.Every readable)
    (height : ∀ e, initial = some e → e.height < room)
    (needed : constant = true → initial.isSome = true) (h : valueYields initial ts)
    (taken : c.Takes ts c') (ends : c'.peek.kind = .semicolon) :
    ∃ initial', g.initialValue constant c = .ok initial' c' ∧
      initial'.map (Expr.relabel .bare) = initial.map (Expr.relabel .bare) := by
  cases initial with
  | none =>
      rw [valueYields] at h
      subst h
      obtain rfl := Cursor.takes_nil.mp taken
      have unfixed : constant = false := by
        cases constant with
        | false => rfl
        | true => cases needed rfl
      exact ⟨none, initialValue_ok.mpr (.inr ⟨by simp [ends], unfixed, rfl, rfl⟩), rfl⟩
  | some e =>
      obtain ⟨t, vs, rfl, kind, yields⟩ := h
      obtain ⟨e', run, same⟩ := reads.value (every e rfl) (height e rfl) yields taken.2.2
        (by rw [ends]; rfl)
      exact ⟨some e', initialValue_ok.mpr (.inl ⟨by rw [taken.kind, kind], e', run, rfl⟩),
        by simp [same]⟩

theorem declaration (reads : g.Reads room) {s : Span} {constant : Bool} {name : String}
    {type : Option String} {initial : Option Expr}
    (every : ∀ e, initial = some e → e.Every readable)
    (height : ∀ e, initial = some e → e.height < room)
    (h : (Statement.declare s constant name type initial).Yields ts) (taken : c.Takes ts c') :
    (c.peek.kind = .constWord ∨ c.peek.kind = .letWord) ∧ ∃ s', g.declaration c = .ok s' c' ∧
      s'.relabel .bare = (Statement.declare s constant name type initial).relabel .bare := by
  obtain ⟨k, t, us, vs, r, rfl, word, ident, text, types, values, semicolon⟩ := h
  obtain ⟨c₁, before, behind⟩ := Cursor.takes_append.mp taken.2.2.2.2
  obtain ⟨c₂, value, last⟩ := Cursor.takes_append.mp behind
  have ends : c₂.peek.kind = .semicolon := by rw [last.kind, semicolon]
  have noColon : c₁.peek.kind ≠ .colon := by
    obtain ⟨u, rest, whole, rfl | equal⟩ := valueYields_begins (r := r) values
    · rw [whole] at behind
      rw [behind.kind, semicolon]
      decide
    · rw [whole] at behind
      rw [behind.kind, equal]
      decide
  have kind := taken.kind
  have first : (c.peek.kind = .constWord ∨ c.peek.kind = .letWord) ∧
      decide (c.peek.kind ≠ .letWord) = constant ∧ (constant = true → initial.isSome = true) := by
    rw [kind]
    rcases word with ⟨isConst, rfl, some⟩ | ⟨isLet, rfl⟩
    · exact ⟨.inl isConst, by rw [isConst]; rfl, fun _ => some⟩
    · exact ⟨.inr isLet, by rw [isLet]; rfl, fun absurd => by cases absurd⟩
  obtain ⟨initial', run, same⟩ := reads.initialValue every height first.2.2 values value ends
  have second : c.next.peek.shape = t := taken.2.2.1
  refine ⟨first.1, _, declaration_ok.mpr ⟨?_, type, c₁, typed types before noColon, initial', c₂,
    by rw [first.2.1]; exact run, ends, rfl, last.2.2⟩, ?_⟩
  · rw [taken.2.2.kind, ident]
  · have written : c.next.peek.text = name := by rw [← text, ← second]; rfl
    rw [Statement.relabel_declare, Statement.relabel_declare, same, first.2.1, written]
    rfl

/-! ## Routines and classes -/

theorem parameter (reads : g.Reads room) {p : Parameter}
    (every : ∀ e, p.default = some e → e.Every readable)
    (height : ∀ e, p.default = some e → e.height < room) (formed : p.Formed)
    (h : p.Yields ts) (taken : c.Takes ts c')
    (ends : c'.peek.kind = .comma ∨ c'.peek.kind = .rightParen) :
    ∃ p', g.parameter c = .ok p' c' ∧ p'.relabel .bare = p.relabel .bare := by
  obtain ⟨name, type, default⟩ := p
  obtain ⟨t, us, vs, rfl, ident, text, types, values⟩ := h
  obtain ⟨c₁, before, behind⟩ := Cursor.takes_append.mp taken.2.2
  have written : c.peek.text = name := by rw [← text, ← taken.1]; rfl
  have first : c.peek.kind = .identifier := by rw [taken.kind, ident]
  have stops : Precedence.ofKind c'.peek.kind = .lowest ∧ c'.peek.kind ≠ .equal ∧
      c'.peek.kind ≠ .colon := by
    rcases ends with kind | kind <;> rw [kind] <;> decide
  cases default with
  | none =>
      rw [valueYields] at values
      subst values
      obtain rfl := Cursor.takes_nil.mp behind
      exact ⟨_, parameter_ok.mpr ⟨first, type, c₁, typed types before stops.2.2, none, c₁,
        optionally_ok.mpr (.inr ⟨stops.2.1, rfl, rfl⟩), rfl, rfl⟩, by rw [written]⟩
  | some e =>
      obtain ⟨u, ws, rfl, kind, yields⟩ := values
      have mark : c₁.peek.kind = .equal := by rw [behind.kind, kind]
      obtain ⟨e', run, same⟩ := reads.expression (every e rfl) (height e rfl) yields behind.2.2
        (Expr.assignment_lt_head (formed.2 e rfl)) (by rw [stops.1]; decide)
      refine ⟨_, parameter_ok.mpr ⟨first, type, c₁, typed types before (by simp [mark]), some e', c',
        optionally_ok.mpr (.inl ⟨mark, e', run, rfl⟩), rfl, rfl⟩, ?_⟩
      simp [Parameter.relabel, written, same]

theorem params (reads : g.Reads room) {params : List Parameter}
    (every : paramsEvery readable params) (height : paramsHeight params < room)
    (formed : ∀ p ∈ params, p.Formed) (h : paramsYield params ts) (taken : c.Takes ts c')
    (closes : c'.peek.kind = .rightParen) :
    ∃ params', separated .rightParen g.parameter c = .ok params' c' ∧
      paramsRelabel .bare params' = paramsRelabel .bare params := by
  simp only [paramsRelabel_eq_map]
  rw [paramsYield_iff] at h
  cases params with
  | nil =>
      rw [CommaYields] at h
      subst h
      obtain rfl := Cursor.takes_nil.mp taken
      exact ⟨[], separated_ok.mpr (.inl ⟨closes, rfl, rfl⟩), rfl⟩
  | cons p ps =>
      have first : c.peek.kind = .identifier := by
        cases ps with
        | nil =>
            obtain ⟨t, us, rfl, kind⟩ := p.begins_of_yields h
            rw [taken.kind, kind]
        | cons q ps =>
            obtain ⟨ls, m, rs, rfl, yields, _⟩ := h
            obtain ⟨t, us, rfl, kind⟩ := p.begins_of_yields yields
            rw [taken.kind, kind]
      obtain ⟨p', ps', c₁, run, rest, same⟩ := commas_read (Parameter.relabel .bare)
        (fun q hq us d d' yields inside follows =>
          reads.parameter (paramsEvery_iff.mp every q hq)
            (fun e default => Nat.lt_of_le_of_lt
              (paramsHeight_le_iff.mp (Nat.le_refl _) q hq e default) height)
            (formed q hq) yields inside
            (follows.imp_right fun last => by rw [last, closes]))
        (fun q us yields => by
          obtain ⟨t, rest, rfl, _⟩ := q.begins_of_yields yields
          simp) h taken (by simp [closes])
      exact ⟨p' :: ps', separated_ok.mpr (.inr ⟨by simp [first], p', c₁, run, ps', rest, rfl⟩), same⟩

theorem routine (reads : g.Reads room) {r : Routine} (every : r.Every readable)
    (height : r.height + 1 < room) (formed : r.Formed) (h : r.Yields ts) (taken : c.Takes ts c') :
    ∃ r', g.routine r.async c = .ok r' c' ∧ r'.relabel .bare = r.relabel .bare := by
  obtain ⟨name, params, returns, body, async⟩ := r
  obtain ⟨t, ps, rs, bs, rfl, ident, text, parameters, types, block⟩ := h
  rw [Routine.height] at height
  obtain ⟨c₁, before, behind⟩ := Cursor.takes_append.mp taken.2.2
  obtain ⟨c₂, arrow, braces⟩ := Cursor.takes_append.mp behind
  obtain ⟨opens, ms, c₃, yields, within, closes, last⟩ := before.enclosed parameters
  obtain ⟨params', first, same⟩ := reads.params every.1 (by omega) formed.2 yields within closes
  obtain ⟨body', second, alike⟩ := reads.block every.2 (by omega) block braces
  have noArrow : c₂.peek.kind ≠ .arrow := by simp [(braces.enclosed block).1]
  have written : c.peek.text = name := by rw [← text, ← taken.1]; rfl
  refine ⟨_, routine_ok.mpr ⟨by rw [taken.kind, ident], opens, params', c₃, first, closes, returns,
    c₂, typed types (by rw [last]; exact arrow) noArrow, body', c', second, rfl, rfl⟩, ?_⟩
  rw [Routine.relabel, same, alike, written]
  rfl

theorem method (reads : g.Reads room) {r : Routine} (every : r.Every readable)
    (height : r.height + 1 < room) (formed : r.Formed) (h : MethodYields r ts)
    (taken : c.Takes ts c') :
    ∃ r', g.method c = .ok r' c' ∧ r'.relabel .bare = r.relabel .bare := by
  obtain ⟨as, ks, ms, rfl, async, word, yields⟩ := h
  obtain ⟨c₁, before, behind⟩ := Cursor.takes_append.mp taken
  obtain ⟨c₂, between, last⟩ := Cursor.takes_append.mp behind
  obtain ⟨t, rest, rfl, name⟩ := r.begins_of_yields yields
  have keyword : (if c₁.peek.kind = .functionWord then c₁.next else c₁) = c₂ := by
    rcases word with rfl | ⟨k, rfl, kind⟩
    · obtain rfl := Cursor.takes_nil.mp between
      rw [if_neg (by rw [last.kind, name]; decide)]
    · rw [if_pos (by rw [between.kind, kind])]
      exact between.2.2
  have accepted : accept .asyncWord c = .ok r.async c₁ := by
    refine accept_ok.mpr ?_
    cases async' : r.async with
    | false =>
        rw [async', asyncYields] at async
        subst async
        obtain rfl := Cursor.takes_nil.mp before
        have noAsync : c.peek.kind ≠ .asyncWord := by
          rcases word with rfl | ⟨k, rfl, kind⟩
          · rw [behind.kind, name]
            decide
          · rw [behind.kind, kind]
            decide
        exact .inr ⟨noAsync, rfl, rfl⟩
    | true =>
        rw [async'] at async
        obtain ⟨u, rfl, kind⟩ := async
        exact .inl ⟨before.kind.trans kind, rfl, Cursor.takes_nil.mp before.2.2⟩
  obtain ⟨r', run, same⟩ := reads.routine every height formed yields last
  exact ⟨r', method_ok.mpr ⟨r.async, c₁, accepted, by rw [keyword]; exact run⟩, same⟩

theorem classStatement (reads : g.Reads room) {s : Span} {name : String} {methods : List Routine}
    (every : routinesEvery readable methods) (height : routinesHeight methods + 1 < room)
    (formed : ∀ m ∈ methods, m.Formed) (h : (Statement.classDecl s name methods).Yields ts)
    (taken : c.Takes ts c') :
    c.peek.kind = .classWord ∧ ∃ s', g.classStatement c = .ok s' c' ∧
      s'.relabel .bare = (Statement.classDecl s name methods).relabel .bare := by
  obtain ⟨k, t, ms, rfl, word, ident, text, enclosed⟩ := h
  obtain ⟨opens, us, c₁, yields, within, closes, last⟩ := taken.2.2.2.2.enclosed enclosed
  obtain ⟨methods', run, same⟩ := items_read (Routine.relabel .bare) (fun _ => True)
    (fun m hm us d d' yields inside _ => by
      have := routinesHeight_le_iff.mp (Nat.le_refl _) m hm
      exact reads.method (routinesEvery_iff.mp every m hm) (by omega) (formed m hm) yields inside)
    (fun m us yields => by
      obtain ⟨t, rest, whole, noBrace⟩ := yields.begins
      exact ⟨t, rest, whole, noBrace, trivial⟩)
    (methodsYield_iff.mp yields) within (.inl closes) trivial
  have second : c.next.peek.shape = t := taken.2.2.1
  have written : c.next.peek.text = name := by rw [← text, ← second]; rfl
  refine ⟨by rw [taken.kind, word], _, classStatement_ok.mpr ⟨by rw [taken.2.2.kind, ident], opens,
    methods', c₁, run, closes, rfl, last⟩, ?_⟩
  rw [Statement.relabel, Statement.relabel, routinesRelabel_eq_map, routinesRelabel_eq_map, same,
    written]
  rfl

theorem functionStatement (reads : g.Reads room) {s : Span} {r : Routine}
    (every : r.Every readable) (height : r.height + 1 < room) (formed : r.Formed)
    (h : (Statement.function s r).Yields ts) (taken : c.Takes ts c') :
    ∃ s', s'.relabel .bare = (Statement.function s r).relabel .bare ∧
      (c.peek.kind = .functionWord ∧ g.functionStatement c = .ok s' c' ∨
        c.peek.kind = .asyncWord ∧ g.asyncStatement c = .ok s' c') := by
  obtain ⟨as, k, rs, rfl, async, word, yields⟩ := h
  obtain ⟨c₁, before, behind⟩ := Cursor.takes_append.mp taken
  have keyword : c₁.peek.kind = .functionWord := by rw [behind.kind, word]
  obtain ⟨r', run, same⟩ := reads.routine every height formed yields behind.2.2
  have alike : ∀ s', (Statement.function s' r').relabel .bare =
      (Statement.function s r).relabel .bare := by
    intro s'
    rw [Statement.relabel, same]
    rfl
  refine ⟨_, alike (c'.spanFrom c.span), ?_⟩
  cases async' : r.async with
  | false =>
      rw [async'] at async run
      obtain rfl : as = [] := async
      obtain rfl := Cursor.takes_nil.mp before
      exact .inl ⟨keyword, functionStatement_ok.mpr ⟨r', c', function_ok.mpr ⟨keyword, run⟩, rfl,
        rfl⟩⟩
  | true =>
      rw [async'] at async run
      obtain ⟨u, rfl, kind⟩ := async
      have there : c.next = c₁ := before.2.2
      exact .inr ⟨by rw [before.kind, kind], asyncStatement_ok.mpr ⟨r', c',
        by rw [there]; exact function_ok.mpr ⟨keyword, run⟩, rfl, rfl⟩⟩

/-! ## Control flow -/

/-- A condition is read with or without parentheses around it. -/
theorem condition (reads : g.Reads room) {e : Expr} (every : e.Every readable)
    (height : e.height + 1 < room)
    (h : Enclosed .leftParen .rightParen e.Yields ts ∨ e.isGroup = false ∧ e.Yields ts)
    (taken : c.Takes ts c') (behind : c'.peek.kind = .leftBrace) :
    ∃ e', g.expression .lowest c = .ok e' c' ∧ e'.ungrouped.relabel .bare = e.relabel .bare := by
  have stops : Precedence.ofKind c'.peek.kind = .lowest := by rw [behind]; rfl
  rcases h with enclosed | ⟨plain, yields⟩
  · obtain ⟨e', run, same⟩ := reads.value (e := .group default e) ⟨⟨trivial, rfl⟩, every⟩
      (by rw [Expr.height]; omega) enclosed taken stops
    refine ⟨e', run, ?_⟩
    rw [← Expr.ungrouped_relabel, same]
    rfl
  · obtain ⟨e', run, same⟩ := reads.value every (by omega) yields taken stops
    refine ⟨e', run, ?_⟩
    rw [← Expr.ungrouped_relabel, same, Expr.ungrouped_relabel]
    cases e <;> first | rfl | cases plain

theorem alternative (reads : g.Reads room) {s : Statement} (every : s.Every readable)
    (height : s.height + 1 < room) (form : s.isConditional = true ∨ s.isBlock = true)
    (h : s.Yields ts) (taken : c.Takes ts c') (stops : goesOn c'.peek.kind = false) :
    ∃ s', g.alternative c = .ok s' c' ∧ s'.relabel .bare = s.relabel .bare := by
  cases s with
  | conditional _ _ _ _ =>
      obtain ⟨s', run, same⟩ := reads.statement every height h taken stops
      obtain ⟨k, cs, bs, os, rfl, word, _⟩ := h
      exact ⟨s', alternative_ok.mpr (.inl ⟨by rw [taken.kind, word], run⟩), same⟩
  | block _ body =>
      rw [Statement.height] at height
      obtain ⟨s', run, same⟩ := reads.blockStatement every.2 (by omega) h taken
      have opens := (taken.enclosed h).1
      exact ⟨s', alternative_ok.mpr (.inr ⟨by simp [opens], run⟩), same⟩
  | _ => simp [Statement.isConditional, Statement.isBlock] at form

theorem otherwise (reads : g.Reads room) {otherwise : Option Statement}
    (every : ∀ s, otherwise = some s → s.Every readable)
    (height : ∀ s, otherwise = some s → s.height + 1 < room) (h : otherwiseYields otherwise ts)
    (taken : c.Takes ts c') (stops : goesOn c'.peek.kind = false) :
    ∃ otherwise', optionally .elseWord g.alternative c = .ok otherwise' c' ∧
      otherwise'.map (Statement.relabel .bare) = otherwise.map (Statement.relabel .bare) := by
  cases otherwise with
  | none =>
      obtain rfl : ts = [] := h
      obtain rfl := Cursor.takes_nil.mp taken
      refine ⟨none, optionally_ok.mpr (.inr ⟨fun word => ?_, rfl, rfl⟩), rfl⟩
      rw [word] at stops
      cases stops
  | some s =>
      obtain ⟨k, os, rfl, word, form, yields⟩ := h
      obtain ⟨s', run, same⟩ :=
        reads.alternative (every s rfl) (height s rfl) form yields taken.2.2 stops
      exact ⟨some s', optionally_ok.mpr (.inl ⟨by rw [taken.kind, word], s', run, rfl⟩),
        by simp [same]⟩

theorem conditional (reads : g.Reads room) {s : Span} {condition : Expr} {body : List Statement}
    {otherwise : Option Statement} (every : (Statement.conditional s condition body otherwise).Every readable)
    (height : (Statement.conditional s condition body otherwise).height < room)
    (h : (Statement.conditional s condition body otherwise).Yields ts) (taken : c.Takes ts c')
    (stops : goesOn c'.peek.kind = false) :
    c.peek.kind = .ifWord ∧ ∃ s', g.conditional c = .ok s' c' ∧
      s'.relabel .bare = (Statement.conditional s condition body otherwise).relabel .bare := by
  obtain ⟨k, cs, bs, os, rfl, word, tested, block, others⟩ := h
  obtain ⟨c₁, before, behind⟩ := Cursor.takes_append.mp taken.2.2
  obtain ⟨c₂, braces, last⟩ := Cursor.takes_append.mp behind
  have parts : condition.Every readable ∧ bodyEvery readable body ∧
      ∀ t, otherwise = some t → t.Every readable := by
    cases otherwise with
    | none => exact ⟨every.2.1, every.2.2, fun _ absurd => by cases absurd⟩
    | some t => exact ⟨every.2.1, every.2.2.1, fun _ same => by cases same; exact every.2.2.2⟩
  have heights : condition.height + 1 < room ∧ bodyHeight body + 1 < room ∧
      ∀ t, otherwise = some t → t.height + 1 < room := by
    cases otherwise with
    | none =>
        rw [Statement.height] at height
        exact ⟨by omega, by omega, fun _ absurd => by cases absurd⟩
    | some t =>
        rw [Statement.height] at height
        exact ⟨by omega, by omega, fun _ same => by cases same; omega⟩
  obtain ⟨condition', first, same₁⟩ := reads.condition parts.1 heights.1 tested before
    (braces.enclosed block).1
  obtain ⟨body', second, same₂⟩ := reads.block parts.2.1 heights.2.1 block braces
  obtain ⟨otherwise', third, same₃⟩ := reads.otherwise parts.2.2 heights.2.2 others last stops
  refine ⟨by rw [taken.kind, word], _, conditional_ok.mpr ⟨condition', c₁, first, body', c₂, second,
    otherwise', c', third, rfl, rfl⟩, ?_⟩
  rw [Statement.relabel_conditional, Statement.relabel_conditional, same₁, same₂, same₃]
  rfl

theorem handler (reads : g.Reads room) {k : Handler} (every : bodyEvery readable k.body)
    (height : bodyHeight k.body + 1 < room) {ns bs : List Shape} (caught : caughtYields k.binding ns)
    (block : Enclosed .leftBrace .rightBrace (bodyYields k.body) bs)
    (taken : c.Takes (ns ++ bs) c') :
    ∃ k', g.handler c = .ok k' c' ∧ k'.relabel .bare = k.relabel .bare := by
  obtain ⟨c₁, before, behind⟩ := Cursor.takes_append.mp taken
  obtain ⟨body', run, same⟩ := reads.block every height block behind
  have name : optionally .leftParen caughtName c = .ok k.binding c₁ := by
    cases binding : k.binding with
    | none =>
        rw [binding] at caught
        obtain rfl : ns = [] := caught
        obtain rfl := Cursor.takes_nil.mp before
        exact optionally_ok.mpr (.inr ⟨by simp [(behind.enclosed block).1], rfl, rfl⟩)
    | some name =>
        rw [binding] at caught
        obtain ⟨l, t, r, rfl, opens, ident, text, closes⟩ := caught
        have second : c.next.peek.shape = t := before.2.2.1
        refine optionally_ok.mpr (.inl ⟨by rw [before.kind, opens], name, caughtName_ok.mpr
          ⟨by rw [before.2.2.kind, ident], by rw [before.2.2.2.2.kind, closes], ?_,
            before.2.2.2.2.2.2⟩, rfl⟩)
        rw [← text, ← second]
        rfl
  refine ⟨_, handler_ok.mpr ⟨k.binding, c₁, name, body', c', run, rfl, rfl⟩, ?_⟩
  simp [Handler.relabel, same]

theorem handlers (reads : g.Reads room) {handler : Option Handler}
    (every : handlerEvery readable handler) (height : handlerHeight handler + 1 < room)
    (h : handlerYields handler ts) (taken : c.Takes ts c') (behind : c'.peek.kind ≠ .catchWord) :
    ∃ handler', optionally .catchWord g.handler c = .ok handler' c' ∧
      handlerRelabel .bare handler' = handlerRelabel .bare handler := by
  simp only [handlerRelabel_eq_map]
  cases handler with
  | none =>
      obtain rfl : ts = [] := h
      obtain rfl := Cursor.takes_nil.mp taken
      exact ⟨none, optionally_ok.mpr (.inr ⟨behind, rfl, rfl⟩), rfl⟩
  | some k =>
      obtain ⟨binding, body⟩ := k
      obtain ⟨word, ns, bs, rfl, kind, caught, block⟩ := h
      obtain ⟨k', run, same⟩ := reads.handler (k := ⟨binding, body⟩) every height caught block
        taken.2.2
      exact ⟨some k', optionally_ok.mpr (.inl ⟨by rw [taken.kind, kind], k', run, rfl⟩),
        by simp [same]⟩

theorem cleanups (reads : g.Reads room) {cleanup : Option (List Statement)}
    (every : cleanupEvery readable cleanup) (height : cleanupHeight cleanup + 1 < room)
    (h : cleanupYields cleanup ts) (taken : c.Takes ts c') (behind : c'.peek.kind ≠ .finallyWord) :
    ∃ cleanup', optionally .finallyWord g.block c = .ok cleanup' c' ∧
      cleanupRelabel .bare cleanup' = cleanupRelabel .bare cleanup := by
  simp only [cleanupRelabel_eq_map]
  cases cleanup with
  | none =>
      obtain rfl : ts = [] := h
      obtain rfl := Cursor.takes_nil.mp taken
      exact ⟨none, optionally_ok.mpr (.inr ⟨behind, rfl, rfl⟩), rfl⟩
  | some body =>
      obtain ⟨word, bs, rfl, kind, block⟩ := h
      obtain ⟨body', run, same⟩ := reads.block every height block taken.2.2
      exact ⟨some body', optionally_ok.mpr (.inl ⟨by rw [taken.kind, kind], body', run, rfl⟩),
        by simp [same]⟩

theorem attempt (reads : g.Reads room) {s : Span} {body : List Statement}
    {handler : Option Handler} {cleanup : Option (List Statement)}
    (every : (Statement.attempt s body handler cleanup).Every readable)
    (height : (Statement.attempt s body handler cleanup).height < room)
    (h : (Statement.attempt s body handler cleanup).Yields ts) (taken : c.Takes ts c')
    (stops : goesOn c'.peek.kind = false) :
    c.peek.kind = .tryWord ∧ ∃ s', g.attempt c = .ok s' c' ∧
      s'.relabel .bare = (Statement.attempt s body handler cleanup).relabel .bare := by
  obtain ⟨k, bs, hs, fs, rfl, word, block, caught, cleaned, some⟩ := h
  obtain ⟨c₁, braces, behind⟩ := Cursor.takes_append.mp taken.2.2
  obtain ⟨c₂, between, last⟩ := Cursor.takes_append.mp behind
  rw [Statement.height] at height
  have noFinally : c'.peek.kind ≠ .finallyWord := by
    intro kind
    rw [kind] at stops
    cases stops
  have noCatch : c₂.peek.kind ≠ .catchWord := by
    intro kind
    cases cleanup with
    | none =>
        obtain rfl : fs = [] := cleaned
        obtain rfl := Cursor.takes_nil.mp last
        rw [kind] at stops
        cases stops
    | some body =>
        obtain ⟨f, us, rfl, mark, _⟩ := cleaned
        rw [last.kind, mark] at kind
        cases kind
  obtain ⟨body', first, same₁⟩ := reads.block every.2.1 (by omega) block braces
  obtain ⟨handler', second, same₂⟩ :=
    reads.handlers every.2.2.1 (by omega) caught between noCatch
  obtain ⟨cleanup', third, same₃⟩ := reads.cleanups every.2.2.2 (by omega) cleaned last noFinally
  have still : ¬(handler'.isNone = true ∧ cleanup'.isNone = true) := by
    rwa [← Option.isNone_map (f := Handler.relabel .bare) (x := handler'),
      ← Option.isNone_map (f := bodyRelabel .bare) (x := cleanup'), ← handlerRelabel_eq_map,
      ← cleanupRelabel_eq_map, same₂, same₃, handlerRelabel_eq_map, cleanupRelabel_eq_map,
      Option.isNone_map, Option.isNone_map]
  refine ⟨by rw [taken.kind, word], _, attempt_ok.mpr ⟨body', c₁, first, handler', c₂, second,
    cleanup', c', third, still, rfl, rfl⟩, ?_⟩
  rw [Statement.relabel, Statement.relabel, same₁, same₂, same₃]
  rfl

theorem returning (reads : g.Reads room) {s : Span} {value : Option Expr}
    (every : ∀ e, value = some e → e.Every readable)
    (height : ∀ e, value = some e → e.height < room)
    (h : (Statement.returning s value).Yields ts) (taken : c.Takes ts c') :
    c.peek.kind = .returnWord ∧ ∃ s', g.returning c = .ok s' c' ∧
      s'.relabel .bare = (Statement.returning s value).relabel .bare := by
  cases value with
  | none =>
      obtain ⟨k, r, rfl, word, semicolon⟩ := h
      have ends : c.next.peek.kind = .semicolon := by rw [taken.2.2.kind, semicolon]
      exact ⟨by rw [taken.kind, word], _, returning_ok.mpr ⟨none, c.next,
        returnValue_ok.mpr (.inl ⟨ends, rfl, rfl⟩), ends, rfl, taken.2.2.2.2⟩, rfl⟩
  | some e =>
      obtain ⟨word, ms, c₁, yields, within, semicolon, last⟩ := taken.enclosed h
      obtain ⟨e', run, same⟩ := reads.value (every e rfl) (height e rfl) yields within
        (by rw [semicolon]; rfl)
      obtain ⟨t, us, rfl, kind⟩ := e.begins_of_yields ms yields
      have begun : c.next.peek.kind ≠ .semicolon := by
        rw [within.kind]
        exact (Kind.ne_of_beginsExpr kind).2.1
      refine ⟨word, _, returning_ok.mpr ⟨some e', c₁, returnValue_ok.mpr (.inr ⟨begun, e', run, rfl⟩),
        semicolon, rfl, last⟩, ?_⟩
      rw [Statement.relabel, same]
      rfl

theorem expressionStatement (reads : g.Reads room) {s : Span} {e : Expr} (every : e.Every readable)
    (height : e.height < room) (h : (Statement.expression s e).Yields ts) (taken : c.Takes ts c') :
    opensStatement c.peek.kind = false ∧ ∃ s', g.expressionStatement c = .ok s' c' ∧
      s'.relabel .bare = (Statement.expression s e).relabel .bare := by
  obtain ⟨vs, r, rfl, yields, semicolon⟩ := h
  obtain ⟨c₁, before, last⟩ := Cursor.takes_append.mp taken
  have ends : c₁.peek.kind = .semicolon := by rw [last.kind, semicolon]
  obtain ⟨e', run, same⟩ := reads.value every height yields before (by rw [ends]; rfl)
  obtain ⟨t, us, rfl, kind⟩ := e.begins_of_yields vs yields
  refine ⟨by rw [before.kind]; exact (Kind.ne_of_beginsExpr kind).2.2.2, _,
    expressionStatement_ok.mpr ⟨e', c₁, run, .inl ⟨ends, rfl, last.2.2⟩⟩, ?_⟩
  rw [Statement.relabel, same]
  rfl

/-! ## Levels -/

theorem anyStatement (reads : g.Reads room) {s : Statement} (every : s.Every readable)
    (height : s.height < room) (h : s.Yields ts) (taken : c.Takes ts c')
    (stops : goesOn c'.peek.kind = false) :
    ∃ s', g.anyStatement c = .ok s' c' ∧ s'.relabel .bare = s.relabel .bare := by
  simp only [anyStatement_ok]
  cases s with
  | function s r =>
      rw [Statement.height] at height
      obtain ⟨s', same, run | run⟩ := reads.functionStatement every.2 (by omega) every.1 h taken
      · exact ⟨s', .inl run, same⟩
      · exact ⟨s', .inr (.inl run), same⟩
  | classDecl s name methods =>
      rw [Statement.height] at height
      obtain ⟨begins, s', run, same⟩ :=
        reads.classStatement every.2 (by omega) every.1.2 h taken
      exact ⟨s', .inr (.inr (.inl ⟨begins, run⟩)), same⟩
  | declare s constant name type initial =>
      obtain ⟨begins, s', run, same⟩ := reads.declaration
        (fun e some => by subst some; exact every.2)
        (fun e some => by subst some; rw [Statement.height] at height; omega) h taken
      exact ⟨s', .inr (.inr (.inr (.inl ⟨begins, run⟩))), same⟩
  | conditional s condition body otherwise =>
      obtain ⟨begins, s', run, same⟩ := reads.conditional every height h taken stops
      exact ⟨s', .inr (.inr (.inr (.inr (.inl ⟨begins, run⟩)))), same⟩
  | attempt s body handler cleanup =>
      obtain ⟨begins, s', run, same⟩ := reads.attempt every height h taken stops
      exact ⟨s', .inr (.inr (.inr (.inr (.inr (.inl ⟨begins, run⟩))))), same⟩
  | returning s value =>
      obtain ⟨begins, s', run, same⟩ := reads.returning
        (fun e some => by subst some; exact every.2)
        (fun e some => by subst some; rw [Statement.height] at height; omega) h taken
      exact ⟨s', .inr (.inr (.inr (.inr (.inr (.inr (.inl ⟨begins, run⟩)))))), same⟩
  | block s body =>
      rw [Statement.height] at height
      obtain ⟨s', run, same⟩ := reads.blockStatement every.2 (by omega) h taken
      have begins := (taken.enclosed h).1
      exact ⟨s', .inr (.inr (.inr (.inr (.inr (.inr (.inr (.inl ⟨begins, run⟩))))))), same⟩
  | expression s e =>
      rw [Statement.height] at height
      obtain ⟨begins, s', run, same⟩ := reads.expressionStatement every.2 (by omega) h taken
      exact ⟨s', .inr (.inr (.inr (.inr (.inr (.inr (.inr (.inr ⟨begins, run⟩))))))), same⟩
  | failed _ => exact h.elim

theorem nest (reads : g.Reads room) : (g.nest room).Reads (room + 1) where
  expression every height h taken loose stops :=
    reads.chain every (by omega) h taken loose stops
  statement every height h taken stops := reads.anyStatement every (by omega) h taken stops

end Grammar.Reads

theorem Grammar.reads_ofRoom (room : Nat) : (ofRoom room).Reads room := by
  induction room with
  | zero =>
      constructor
      · intro e ts c c' min _ height
        omega
      · intro s ts c c' _ height
        omega
  | succ room ih => exact ih.nest

/-- A program is read back from the tokens of its statements, without an error. -/
theorem programFrom_reads {g : Grammar} {room : Nat} (reads : g.Reads room) {body : List Statement}
    {ts : List Shape} {c c' : Cursor} (every : ∀ s ∈ body, s.Every readable)
    (height : ∀ s ∈ body, s.height + 1 < room) (h : bodyYields body ts) (taken : c.Takes ts c')
    (ends : c'.ahead = []) :
    ∃ body', (programFrom g c).1 = ⟨body', []⟩ ∧
      bodyRelabel .bare body' = bodyRelabel .bare body := by
  induction body generalizing ts c with
  | nil =>
      obtain rfl : ts = [] := h
      obtain rfl := Cursor.takes_nil.mp taken
      refine ⟨[], ?_, rfl⟩
      rw [programFrom, if_pos (by simp [Cursor.atEnd, ends])]
      rfl
  | cons s ss ih =>
      obtain ⟨ls, rs, rfl, first, rest⟩ := h
      obtain ⟨c₁, before, behind⟩ := Cursor.takes_append.mp taken
      obtain ⟨t, us, rfl, _⟩ := s.begins_of_yields first
      have stops : goesOn c₁.peek.kind = false := by
        cases ss with
        | nil =>
            obtain rfl : rs = [] := rest
            obtain rfl := Cursor.takes_nil.mp behind
            rw [Cursor.peek_kind_eq_end.mpr ends]
            rfl
        | cons s' ss =>
            obtain ⟨ls', rs', rfl, next, _⟩ := rest
            obtain ⟨u, vs, rfl, _, goesOn⟩ := s'.begins_of_yields next
            rw [behind.kind, goesOn]
      obtain ⟨s', run, same⟩ := reads.statement (every s (by simp)) (height s (by simp)) first before
        stops
      obtain ⟨body', others, alike⟩ := ih (fun x hx => every x (List.mem_cons_of_mem _ hx))
        (fun x hx => height x (List.mem_cons_of_mem _ hx)) rest behind
      have shorter := (before.advances (by simp)).length_lt
      have more : ¬c.atEnd = true := by
        intro none
        have : c.ahead.length = 0 := by simpa [Cursor.atEnd] using none
        omega
      refine ⟨s' :: body', ?_, by rw [bodyRelabel, bodyRelabel, same, alike]⟩
      rw [programFrom, if_neg more]
      simp only [statementOrFailure, run, shorter, if_true]
      rw [others]
      rfl

/-! ## Expressions in a list of tokens -/

/-- The cursor behind the tokens at the front of what is ahead. -/
theorem Cursor.exists_takes_tokens {c : Cursor} {tokens rest : List Token}
    (h : c.ahead = tokens ++ rest) :
    ∃ c', c.Takes (tokens.map Token.shape) c' ∧ c'.ahead = rest := by
  have shapes : c.ahead.map Token.shape = tokens.map Token.shape ++ rest.map Token.shape := by
    rw [h, List.map_append]
  obtain ⟨c', taken, _⟩ := exists_takes shapes
  obtain ⟨tokens', ahead, same⟩ := taken.ahead_eq
  have length : tokens'.length = tokens.length := by
    simpa using congrArg List.length same
  exact ⟨c', taken, ((List.append_inj (ahead.symm.trans h) length).2)⟩

/-- Only operators between operands, parentheses and dots go on with an expression. -/
theorem Precedence.ofKind_eq_lowest {kind : Kind} (binary : BinaryOp.ofKind? kind = none)
    (assign : AssignOp.ofKind? kind = none) (call : kind ≠ .leftParen) (member : kind ≠ .dot) :
    Precedence.ofKind kind = .lowest := by
  cases kind <;>
    first
      | rfl
      | exact absurd binary (by decide)
      | exact absurd assign (by decide)
      | exact absurd rfl call
      | exact absurd rfl member

/-- An expression whose operators stand on the ladder is read from the tokens it is
written with, whatever follows them, if that is no operator: all of its tokens are taken
and no other one. -/
theorem expression_of_yields {e : Expr} {tokens rest : List Token} (every : e.Every readable)
    (height : e.height ≤ 255) (yields : e.Yields (tokens.map Token.shape))
    (inner : ∀ t ∈ tokens, t.kind ≠ .endOfFile)
    (stops : ∀ t, rest.head? = some t → BinaryOp.ofKind? t.kind = none ∧
      AssignOp.ofKind? t.kind = none ∧ t.kind ≠ .leftParen ∧ t.kind ≠ .dot) :
    ∃ e' c', (Cursor.ofTokens (tokens ++ rest)).expression = .ok e' c' ∧
      e'.relabel .bare = e.relabel .bare ∧
      (Cursor.ofTokens (tokens ++ rest)).ahead = tokens ++ c'.ahead ∧
      c'.ahead = rest.takeWhile Cursor.isInner := by
  have before : ∀ t ∈ tokens, Cursor.isInner t = true := fun t ht => decide_eq_true (inner t ht)
  have ahead : (Cursor.ofTokens (tokens ++ rest)).ahead =
      tokens ++ rest.takeWhile Cursor.isInner :=
    List.takeWhile_append_of_pos before
  obtain ⟨c', taken, left⟩ := Cursor.exists_takes_tokens ahead
  have loose : Precedence.ofKind c'.peek.kind = .lowest := by
    by_cases ends : c'.peek.kind = .endOfFile
    · rw [ends]
      rfl
    · have next := Cursor.ahead_eq_cons ends
      rw [left] at next
      have first : rest.head? = some c'.peek := by
        cases rest with
        | nil => cases next
        | cons t rest =>
            rw [List.takeWhile_cons] at next
            split at next
            · exact congrArg some (List.cons.inj next).1
            · cases next
      obtain ⟨binary, assign, call, member⟩ := stops _ first
      exact Precedence.ofKind_eq_lowest binary assign call member
  obtain ⟨e', run, same⟩ := (Grammar.reads_ofRoom maxNesting).value every
    (Nat.lt_succ_of_le height) yields taken loose
  exact ⟨e', c', run, same, by rw [ahead, left], left⟩

/-- An assignment of a comparison, in front of a closing brace. -/
theorem expression_of_yields_comparison : ∃ e' c',
    (Cursor.ofTokens ([⟨.identifier, "a", default, none⟩, ⟨.equal, "=", default, none⟩,
      ⟨.identifier, "b", default, none⟩, ⟨.equalEqual, "==", default, none⟩,
      ⟨.minus, "-", default, none⟩, ⟨.identifier, "c", default, none⟩]
        ++ [⟨.rightBrace, "\x7d", default, none⟩])).expression = .ok e' c' ∧
      e'.relabel .bare = .assign default .assign (.ident default "a")
        (.binary default .equal (.ident default "b")
          (.unary default .negate (.ident default "c"))) ∧
      c'.ahead = [⟨.rightBrace, "\x7d", default, none⟩] := by
  have every : (Expr.assign default .assign (.ident default "a")
      (.binary default .equal (.ident default "b")
        (.unary default .negate (.ident default "c")))).Every readable := by
    simp [Expr.Every, readable, Expr.Laddered, Expr.isSelection, Expr.isAssignable,
      Expr.isAssignment, Expr.isBinary, Expr.RootOperator]
  have stops : ∀ t, [(⟨.rightBrace, "\x7d", default, none⟩ : Token)].head? = some t →
      BinaryOp.ofKind? t.kind = none ∧ AssignOp.ofKind? t.kind = none ∧ t.kind ≠ .leftParen ∧
        t.kind ≠ .dot := by
    rintro t ⟨⟩
    decide
  obtain ⟨e', c', run, same, _, left⟩ := @expression_of_yields _
    [⟨.identifier, "a", default, none⟩, ⟨.equal, "=", default, none⟩,
      ⟨.identifier, "b", default, none⟩, ⟨.equalEqual, "==", default, none⟩,
      ⟨.minus, "-", default, none⟩, ⟨.identifier, "c", default, none⟩] _ every (by decide)
    ⟨[_], _, [_, _, _, _], rfl, ⟨_, rfl, rfl, rfl⟩, rfl,
      ⟨[_], _, [_, _], rfl, ⟨_, rfl, rfl, rfl⟩, rfl, ⟨_, [_], rfl, rfl, ⟨_, rfl, rfl, rfl⟩⟩⟩⟩
    (by decide) stops
  exact ⟨e', c', run, same, left⟩

end TwoScript
