import TwoScript.Parse.Program
import TwoScript.Proofs.Parse.Source
import TwoScript.Proofs.Parse.Success
import TwoScript.Proofs.Tree.Formed
import TwoScript.Proofs.Tree.Relabel

/-!
# Reading what a tree is written with

The converse of soundness. A tree without selections whose operators stand on the
ladder is read back from its tokens, up to spans, by every grammar with more room than
the tree is high.
-/

namespace TwoScript

def Expr.isSelection : Expr → Bool
  | .select _ _ _ => true
  | _ => false

def readable : Check where
  expr e := e.Laddered ∧ e.isSelection = false
  pattern _ := True
  statement := Statement.Formed

namespace Cursor

/-! ## Tokens ahead -/

theorem Takes.kind {c c' : Cursor} {t : Shape} {ts : List Shape} (h : c.Takes (t :: ts) c') :
    c.peek.kind = t.kind := by
  rw [← h.1]
  rfl

theorem Takes.advances {c c' : Cursor} {ts : List Shape} (h : c.Takes ts c') (some : ts ≠ []) :
    c.Advances c' :=
  ⟨ts, some, h⟩

/-- The stretch between two tokens of known kinds. -/
theorem Takes.enclosed {c c' : Cursor} {first last : Kind} {inside : List Shape → Prop}
    {ts : List Shape} (h : c.Takes ts c') (enclosed : Enclosed first last inside ts) :
    c.peek.kind = first ∧ ∃ ms c₁, inside ms ∧ c.next.Takes ms c₁ ∧ c₁.peek.kind = last ∧
      c₁.next = c' := by
  obtain ⟨l, ms, r, rfl, opens, within, closes⟩ := enclosed
  obtain ⟨c₁, middle, final⟩ := takes_append.mp h.2.2
  exact ⟨by rw [h.kind, opens], ms, c₁, within, middle, by rw [final.kind, closes], final.2.2⟩

end Cursor

/-! ## Lists -/

def CommaYields {α : Type} (yields : α → List Shape → Prop) : List α → List Shape → Prop
  | [], ts => ts = []
  | [a], ts => yields a ts
  | a :: b :: as, ts => ∃ ls t rs, ts = ls ++ t :: rs ∧ yields a ls ∧ t.kind = .comma ∧
      CommaYields yields (b :: as) rs

theorem argsYield_iff {args : List Expr} {ts : List Shape} :
    argsYield args ts ↔ CommaYields Expr.Yields args ts := by
  induction args generalizing ts with
  | nil => exact Iff.rfl
  | cons e es ih =>
      cases es with
      | nil => exact Iff.rfl
      | cons f es => simp only [argsYield, CommaYields, ih]

theorem paramsYield_iff {params : List Parameter} {ts : List Shape} :
    paramsYield params ts ↔ CommaYields Parameter.Yields params ts := by
  induction params generalizing ts with
  | nil => exact Iff.rfl
  | cons p ps ih =>
      cases ps with
      | nil => exact Iff.rfl
      | cons q ps => simp only [paramsYield, CommaYields, ih]

def SequenceYields {α : Type} (yields : α → List Shape → Prop) : List α → List Shape → Prop
  | [], ts => ts = []
  | a :: as, ts => ∃ ls rs, ts = ls ++ rs ∧ yields a ls ∧ SequenceYields yields as rs

theorem bodyYields_iff {body : List Statement} {ts : List Shape} :
    bodyYields body ts ↔ SequenceYields Statement.Yields body ts := by
  induction body generalizing ts with
  | nil => exact Iff.rfl
  | cons s ss ih => simp only [bodyYields, SequenceYields, ih]

namespace Parser

section

variable {α β : Type} {item : Parser α} {yields : α → List Shape → Prop} (view : α → β)

/-- Items with commas between them are read from the tokens they are written with, if
each of them is. -/
theorem commas_read {a : α} {as : List α} {ts : List Shape} {c c' : Cursor}
    (reads : ∀ b ∈ a :: as, ∀ us d d', yields b us → d.Takes us d' →
      d'.peek.kind = .comma ∨ d' = c' → ∃ b', item d = .ok b' d' ∧ view b' = view b)
    (some : ∀ b us, yields b us → us ≠ []) (h : CommaYields yields (a :: as) ts)
    (taken : c.Takes ts c') (ends : c'.peek.kind ≠ .comma) :
    ∃ a' as' c₁, item c = .ok a' c₁ ∧ many (optionally .comma item) c₁ = .ok as' c' ∧
      (a' :: as').map view = (a :: as).map view := by
  suffices ∃ a' as' c₁, item c = .ok a' c₁ ∧ c₁.ahead.length < c.ahead.length ∧
      Repeats (optionally .comma item) c₁ as' c' ∧ (a' :: as').map view = (a :: as).map view by
    obtain ⟨a', as', c₁, first, _, rest, same⟩ := this
    exact ⟨a', as', c₁, first, rest.many_ok, same⟩
  induction as generalizing a c ts with
  | nil =>
      obtain ⟨a', run, same⟩ := reads a (by simp) ts c c' h taken (.inr rfl)
      exact ⟨a', [], c', run, (taken.advances (some a ts h)).length_lt,
        .nil (optionally_ok.mpr (.inr ⟨ends, rfl, rfl⟩)), by simp [same]⟩
  | cons b as ih =>
      obtain ⟨ls, t, rs, rfl, first, comma, rest⟩ := h
      obtain ⟨c₁, before, behind⟩ := Cursor.takes_append.mp taken
      have mark : c₁.peek.kind = .comma := by rw [behind.kind, comma]
      obtain ⟨a', run, same⟩ := reads a (by simp) ls c c₁ first before (.inl mark)
      obtain ⟨b', as', c₂, second, shorter, others, rest'⟩ :=
        ih (fun x hx => reads x (List.mem_cons_of_mem _ hx)) rest behind.2.2
      rw [Cursor.length_ahead_next] at shorter
      refine ⟨a', b' :: as', c₁, run, (before.advances (some a ls first)).length_lt,
        .cons (optionally_ok.mpr (.inl ⟨mark, b', second, rfl⟩)) (by omega) others, ?_⟩
      rw [List.map_cons, same, rest', List.map_cons (l := b :: as)]

/-- Items in front of a closing brace, or of the end of the input, are read from the tokens
they are written with, if each of them is. What follows an item is the beginning of the
next one or that brace. -/
theorem items_read (follows : Kind → Prop) {as : List α} {ts : List Shape} {c c' : Cursor}
    (reads : ∀ a ∈ as, ∀ us d d', yields a us → d.Takes us d' → follows d'.peek.kind →
      ∃ a', item d = .ok a' d' ∧ view a' = view a)
    (begins : ∀ a us, yields a us → ∃ t rest, us = t :: rest ∧ t.kind ≠ .rightBrace ∧
      follows t.kind)
    (h : SequenceYields yields as ts) (taken : c.Takes ts c')
    (ends : c'.peek.kind = .rightBrace ∨ c'.peek.kind = .endOfFile)
    (last : follows c'.peek.kind) :
    ∃ as', items item c = .ok as' c' ∧ as'.map view = as.map view := by
  suffices follows c.peek.kind ∧ ∃ as', Repeats (itemBeforeBrace item) c as' c' ∧
      as'.map view = as.map view by
    obtain ⟨_, as', run, same⟩ := this
    exact ⟨as', run.many_ok, same⟩
  induction as generalizing c ts with
  | nil =>
      rw [SequenceYields] at h
      subst h
      obtain rfl := Cursor.takes_nil.mp taken
      exact ⟨last, [], .nil (itemBeforeBrace_ok.mpr (.inl ⟨ends, rfl, rfl⟩)), rfl⟩
  | cons a as ih =>
      obtain ⟨ls, rs, rfl, first, rest⟩ := h
      obtain ⟨c₁, before, behind⟩ := Cursor.takes_append.mp taken
      obtain ⟨next, as', others, rest'⟩ :=
        ih (fun x hx => reads x (List.mem_cons_of_mem _ hx)) rest behind
      obtain ⟨a', run, same⟩ := reads a (by simp) ls c c₁ first before next
      obtain ⟨t, us, rfl, noBrace, begun⟩ := begins a ls first
      have kind := before.kind
      refine ⟨by rw [kind]; exact begun, a' :: as', .cons (itemBeforeBrace_ok.mpr (.inr ?_))
        (before.advances (by simp)).length_lt others, by simp [same, rest']⟩
      exact ⟨by rw [kind]; exact noBrace, by rw [kind]; exact before.2.1, a', run, rfl⟩

end

end Parser

/-! ## First tokens -/

def Kind.beginsExpr : Kind → Bool
  | number | string | trueWord | falseWord | nullWord | template | identifier | leftParen
  | matchWord | bang | minus | tilde | awaitWord => true
  | _ => false

theorem Shape.beginsExpr_of_isLiteral {t : Shape} (h : t.isLiteral = true) :
    t.kind.beginsExpr = true := by
  rcases Shape.isLiteral_iff.mp h with kind | kind | kind | kind | kind <;> rw [kind] <;> rfl

theorem UnaryOp.beginsExpr_of_kind {kind : Kind} {op : UnaryOp} (h : ofKind? kind = some op) :
    kind.beginsExpr = true := by
  cases kind <;> simp [ofKind?] at h <;> rfl

theorem Expr.begins_of_yields : ∀ (e : Expr) (ts : List Shape), e.Yields ts →
    ∃ t rest, ts = t :: rest ∧ t.kind.beginsExpr = true
  | .literal _ _, _, ⟨t, whole, kind, _⟩ => ⟨t, [], whole, Shape.beginsExpr_of_isLiteral kind⟩
  | .ident _ _, _, ⟨t, whole, kind, _⟩ => ⟨t, [], whole, by rw [kind]; rfl⟩
  | .assign _ _ target _, _, ⟨ls, t, rs, whole, first, _⟩ => by
      obtain ⟨u, us, rfl, kind⟩ := Expr.begins_of_yields target ls first
      exact ⟨u, us ++ t :: rs, whole, kind⟩
  | .binary _ _ left _, _, ⟨ls, t, rs, whole, first, _⟩ => by
      obtain ⟨u, us, rfl, kind⟩ := Expr.begins_of_yields left ls first
      exact ⟨u, us ++ t :: rs, whole, kind⟩
  | .unary _ _ _, _, ⟨t, rs, whole, kind, _⟩ => ⟨t, rs, whole, UnaryOp.beginsExpr_of_kind kind⟩
  | .group _ _, _, ⟨l, ms, r, whole, kind, _⟩ => ⟨l, ms ++ [r], whole, by rw [kind]; rfl⟩
  | .call _ callee _, _, ⟨ls, ms, whole, first, _⟩ => by
      obtain ⟨u, us, rfl, kind⟩ := Expr.begins_of_yields callee ls first
      exact ⟨u, us ++ ms, whole, kind⟩
  | .member _ object _, _, ⟨ls, d, t, whole, first, _⟩ => by
      obtain ⟨u, us, rfl, kind⟩ := Expr.begins_of_yields object ls first
      exact ⟨u, us ++ [d, t], whole, kind⟩
  | .await _ _, _, ⟨t, rs, whole, kind, _⟩ => ⟨t, rs, whole, by rw [kind]; rfl⟩
  | .select _ _ _, _, ⟨l, ms, r, whole, kind, _⟩ => ⟨l, ms ++ [r], whole, by rw [kind]; rfl⟩
  | .template _ _, _, ⟨t, whole, kind, _⟩ => ⟨t, [], whole, by rw [kind]; rfl⟩

/-! ## Operands -/

/-- What is read from the tokens of a tree with enough room: the tree, up to spans. -/
structure Grammar.Reads (g : Grammar) (room : Nat) : Prop where
  expression {e : Expr} {ts : List Shape} {c c' : Cursor} {min : Precedence} :
    e.Every readable → e.height < room → e.Yields ts → c.Takes ts c' → min < e.head →
      Precedence.ofKind c'.peek.kind ≤ min →
      ∃ e', g.expression min c = .ok e' c' ∧ e'.relabel .bare = e.relabel .bare
  statement {s : Statement} {ts : List Shape} {c c' : Cursor} :
    s.Every readable → s.height + 1 < room → s.Yields ts → c.Takes ts c' →
      goesOn c'.peek.kind = false →
      ∃ s', g.statement c = .ok s' c' ∧ s'.relabel .bare = s.relabel .bare

theorem Precedence.lowest_lt_head (e : Expr) : .lowest < e.head := by
  cases e with
  | binary _ op _ _ => cases op <;> simp only [Expr.head] <;> decide
  | _ => simp only [Expr.head]; decide

theorem Expr.tail_le_head (e : Expr) : e.tail ≤ e.head := by
  cases e with
  | binary _ op _ _ => exact Nat.le_refl _
  | _ => simp only [tail, head]; decide

namespace Grammar.Reads

variable {g : Grammar} {room : Nat} {c c' : Cursor} {ts : List Shape}

/-- A whole expression in front of a token that does not continue it. -/
theorem value (reads : g.Reads room) {e : Expr} (every : e.Every readable)
    (height : e.height < room) (h : e.Yields ts) (taken : c.Takes ts c')
    (stops : Precedence.ofKind c'.peek.kind = .lowest) :
    ∃ e', g.expression .lowest c = .ok e' c' ∧ e'.relabel .bare = e.relabel .bare :=
  reads.expression every height h taken (Precedence.lowest_lt_head e) (by rw [stops]; decide)

theorem args (reads : g.Reads room) {args : List Expr} (every : argsEvery readable args)
    (height : argsHeight args < room) (h : argsYield args ts) (taken : c.Takes ts c')
    (closes : c'.peek.kind = .rightParen) :
    ∃ args', Parser.separated .rightParen (g.expression .lowest) c = .ok args' c' ∧
      argsRelabel .bare args' = argsRelabel .bare args := by
  simp only [argsRelabel_eq_map]
  rw [argsYield_iff] at h
  cases args with
  | nil =>
      rw [CommaYields] at h
      subst h
      obtain rfl := Cursor.takes_nil.mp taken
      exact ⟨[], Parser.separated_ok.mpr (.inl ⟨closes, rfl, rfl⟩), rfl⟩
  | cons e es =>
      have first : ∃ t us, ts = t :: us ∧ t.kind.beginsExpr = true := by
        cases es with
        | nil => exact e.begins_of_yields ts h
        | cons f es =>
            obtain ⟨ls, t, rs, rfl, yields, _⟩ := h
            obtain ⟨u, us, rfl, kind⟩ := e.begins_of_yields ls yields
            exact ⟨u, us ++ t :: rs, rfl, kind⟩
      obtain ⟨e', es', c₁, run, rest, same⟩ := Parser.commas_read (Expr.relabel .bare)
        (fun f hf us d d' yields inside follows =>
          reads.value (argsEvery_iff.mp every f hf)
            (Nat.lt_of_le_of_lt (argsHeight_le_iff.mp (Nat.le_refl _) f hf) height) yields inside
            (by rcases follows with comma | rfl
                · rw [comma]; rfl
                · rw [closes]; rfl))
        (fun f us yields => yields.ne_nil) h taken (by simp [closes])
      refine ⟨e' :: es', Parser.separated_ok.mpr (.inr ⟨?_, e', c₁, run, es', rest, rfl⟩), same⟩
      obtain ⟨t, us, rfl, kind⟩ := first
      rw [taken.kind]
      intro close
      rw [close] at kind
      cases kind

theorem interpolation (reads : g.Reads room) {e : Expr} (every : e.Every readable)
    (height : e.height < room) (place : Place) {source : List Char} (h : e.Yields (shapes source)) :
    ∃ e', g.interpolation place source = .ok e' ∧ e'.relabel .bare = e.relabel .bare := by
  obtain ⟨ahead, _, _⟩ := Cursor.ofTokens_tokensFrom place source
  rw [← List.append_nil (shapes source)] at ahead
  obtain ⟨c', taken, rest⟩ := Cursor.exists_takes ahead
  have ended : c'.ahead = [] := List.map_eq_nil_iff.mp rest
  obtain ⟨e', run, same⟩ := reads.value every height h taken
    (by rw [Cursor.peek_kind_eq_end.mpr ended]; rfl)
  exact ⟨e', interpolation_ok.mpr ⟨c', run, ended⟩, same⟩

theorem parts (reads : g.Reads room) {parts : List Part} {segments : List Segment}
    (every : partsEvery readable parts) (height : partsHeight parts < room)
    (h : partsYield parts segments) :
    ∃ parts', segments.mapM g.part = .ok parts' ∧
      partsRelabel .bare parts' = partsRelabel .bare parts := by
  induction parts generalizing segments with
  | nil =>
      rw [partsYield] at h
      subst h
      exact ⟨[], rfl, rfl⟩
  | cons part parts ih =>
      cases part with
      | text s =>
          obtain ⟨cs, rest, rfl, rfl, later⟩ := h
          obtain ⟨parts', run, same⟩ := ih every height later
          exact ⟨_, parts_ok_cons.mpr ⟨.text (String.ofList cs), parts', rfl, run, rfl⟩,
            by rw [partsRelabel, same]; rfl⟩
      | expr e =>
          obtain ⟨place, cs, rest, rfl, yields, later⟩ := h
          rw [partsHeight] at height
          obtain ⟨parts', run, same⟩ := ih every.2 (by omega) later
          obtain ⟨e', inside, alike⟩ := reads.interpolation every.1 (by omega) place yields
          refine ⟨_, parts_ok_cons.mpr
            ⟨.expr e', parts', part_source_ok.mpr ⟨e', inside, rfl⟩, run, rfl⟩, ?_⟩
          rw [partsRelabel, same, alike]
          rfl

/-! ## Chains -/

/-- The steps that lead from the first operand of an expression to the whole of it. -/
def Spine (g : Grammar) (room : Nat) (min : Precedence) (e : Expr) (c c' : Cursor) : Prop :=
  ∃ first c₁ e', g.operand c = .ok first c₁ ∧ e'.relabel .bare = e.relabel .bare ∧
    ∀ whole c'', Parser.Grows (g.extend room min) ⟨e', e.height⟩ c' whole c'' →
      Parser.Grows (g.extend room min) ⟨first, first.height⟩ c₁ whole c''

theorem height_of_alike {e e' : Expr} (h : e'.relabel .bare = e.relabel .bare) :
    e'.height = e.height := by
  rw [← Expr.height_relabel (r := .bare) e', h, Expr.height_relabel]

/-- Wherever its tokens stand, an expression is read along these steps. -/
def Along (g : Grammar) (room : Nat) (min : Precedence) (e : Expr) : Prop :=
  ∀ (ts : List Shape) (c c' : Cursor), e.Yields ts → c.Takes ts c' → min < e.head →
    Precedence.ofKind c'.peek.kind ≤ e.tail → Spine g room min e c c'

theorem along_of_operand {min : Precedence} {e : Expr}
    (h : ∀ ts c c', e.Yields ts → c.Takes ts c' → Precedence.ofKind c'.peek.kind ≤ e.tail →
      ∃ e', g.operand c = .ok e' c' ∧ e'.relabel .bare = e.relabel .bare) :
    Along g room min e := by
  intro ts c c' yields taken _ stops
  obtain ⟨e', run, same⟩ := h ts c c' yields taken stops
  refine ⟨e', c', e', run, same, fun whole c'' rest => ?_⟩
  rw [height_of_alike same]
  exact rest

/-- One more operator behind a chain. -/
theorem spine_more {min : Precedence} {left e : Expr} {c₁ : Cursor} {ls rs : List Shape}
    (along : Along g room min left) (yields : left.Yields ls) (before : c.Takes ls c₁)
    (behind : c₁.Takes rs c') (more : rs ≠ []) (binds : min < Precedence.ofKind c₁.peek.kind)
    (ladder : Precedence.ofKind c₁.peek.kind ≤ left.tail)
    (run : ∀ left', left'.relabel .bare = left.relabel .bare → ∃ e',
      g.continuation left' c₁ = .ok e' c' ∧ e'.relabel .bare = e.relabel .bare ∧
        e.height = 1 + max left.height e'.trailingHeight)
    (height : e.height ≤ room) : Spine g room min e c c' := by
  have around := Nat.lt_of_lt_of_le binds (Nat.le_trans ladder left.tail_le_head)
  obtain ⟨first, c₀, left', operand, same, steps⟩ := along ls c c₁ yields before around ladder
  obtain ⟨e', continued, alike, grown⟩ := run left' same
  refine ⟨first, c₀, e', operand, alike, fun whole c'' rest => steps whole c'' ?_⟩
  refine .more (extend_ok.mpr (.inr ⟨Precedence.not_le.mpr binds, e', continued, ?_, rfl⟩))
    (behind.advances more).length_lt ?_
  · rw [← grown]
    exact height
  · rw [← grown]
    exact rest

theorem literal {s : Span} {value : Literal} (h : (Expr.literal s value).Yields ts)
    (taken : c.Takes ts c') : ∃ e', g.operand c = .ok e' c' ∧
      e'.relabel .bare = (Expr.literal s value).relabel .bare := by
  obtain ⟨t, rfl, kind, found⟩ := h
  have first : c.peek.shape = t := taken.1
  refine ⟨_, operand_ok.mpr (.inl ⟨by rw [first, kind],
    literal_ok.mpr ⟨value, ?_, rfl, taken.2.2⟩⟩), rfl⟩
  rw [← Token.shape_literal, first, found]

theorem ident {s : Span} {name : String} (h : (Expr.ident s name).Yields ts)
    (taken : c.Takes ts c') : ∃ e', g.operand c = .ok e' c' ∧
      e'.relabel .bare = (Expr.ident s name).relabel .bare := by
  obtain ⟨t, rfl, kind, text⟩ := h
  have first : c.peek.text = name := by rw [← text, ← taken.1]; rfl
  refine ⟨_, operand_ok.mpr (.inr (.inr (.inl ⟨by rw [taken.kind, kind],
    ident_ok.mpr ⟨rfl, taken.2.2⟩⟩))), ?_⟩
  rw [first]
  rfl

theorem template (reads : g.Reads room) {s : Span} {parts : List Part}
    (every : partsEvery readable parts) (height : partsHeight parts < room)
    (h : (Expr.template s parts).Yields ts) (taken : c.Takes ts c') :
    ∃ e', g.operand c = .ok e' c' ∧ e'.relabel .bare = (Expr.template s parts).relabel .bare := by
  obtain ⟨t, rfl, kind, yields⟩ := h
  have first : c.peek.shape = t := taken.1
  have body : templateBody c.peek = t.body := by rw [← first]; rfl
  have there : partsYield parts (templateSegments ⟨c.peek.span.start + 1, c.peek.span.line⟩
      (templateBody c.peek)) := by
    rw [← partsYield_bare, templateSegments_bare _ .first, partsYield_bare, body]
    exact yields
  obtain ⟨parts', run, same⟩ := reads.parts every height there
  refine ⟨_, operand_ok.mpr (.inr (.inl ⟨by rw [taken.kind, kind],
    template_ok.mpr ⟨parts', run, rfl, taken.2.2⟩⟩)), ?_⟩
  rw [Expr.relabel, same]
  rfl

theorem group (reads : g.Reads room) {s : Span} {inner : Expr} (every : inner.Every readable)
    (height : inner.height < room) (h : (Expr.group s inner).Yields ts) (taken : c.Takes ts c') :
    ∃ e', g.operand c = .ok e' c' ∧ e'.relabel .bare = (Expr.group s inner).relabel .bare := by
  obtain ⟨opens, ms, c₁, yields, within, closes, last⟩ := taken.enclosed h
  obtain ⟨inner', run, same⟩ := reads.value every height yields within (by rw [closes]; rfl)
  refine ⟨_, operand_ok.mpr (.inr (.inr (.inr (.inl ⟨opens,
    group_ok.mpr ⟨inner', c₁, run, closes, rfl, last⟩⟩)))), ?_⟩
  rw [Expr.relabel, same]
  rfl

theorem unary (reads : g.Reads room) {s : Span} {op : UnaryOp} {operand : Expr}
    (every : operand.Every readable) (height : operand.height < room)
    (tight : .unary < operand.head) (h : (Expr.unary s op operand).Yields ts)
    (taken : c.Takes ts c') (stops : Precedence.ofKind c'.peek.kind ≤ .unary) :
    ∃ e', g.operand c = .ok e' c' ∧
      e'.relabel .bare = (Expr.unary s op operand).relabel .bare := by
  obtain ⟨t, rs, rfl, kind, yields⟩ := h
  obtain ⟨operand', run, same⟩ := reads.expression every height yields taken.2.2 tight stops
  refine ⟨_, operand_ok.mpr (.inr (.inr (.inr (.inr (.inr (.inl ⟨op, by rw [taken.kind, kind],
    unary_ok.mpr ⟨operand', c', run, rfl, rfl⟩⟩)))))), ?_⟩
  rw [Expr.relabel, same]
  rfl

theorem await (reads : g.Reads room) {s : Span} {operand : Expr}
    (every : operand.Every readable) (height : operand.height < room)
    (tight : .unary < operand.head) (h : (Expr.await s operand).Yields ts)
    (taken : c.Takes ts c') (stops : Precedence.ofKind c'.peek.kind ≤ .unary) :
    ∃ e', g.operand c = .ok e' c' ∧ e'.relabel .bare = (Expr.await s operand).relabel .bare := by
  obtain ⟨t, rs, rfl, kind, yields⟩ := h
  obtain ⟨operand', run, same⟩ := reads.expression every height yields taken.2.2 tight stops
  refine ⟨_, operand_ok.mpr (.inr (.inr (.inr (.inr (.inr (.inr ⟨by rw [taken.kind, kind],
    await_ok.mpr ⟨operand', c', run, rfl, rfl⟩⟩)))))), ?_⟩
  rw [Expr.relabel, same]
  rfl

theorem operation (reads : g.Reads room) {s : Span} {op : BinaryOp} {left right left' : Expr}
    (kind : BinaryOp.ofKind? c.peek.kind = some op) (every : right.Every readable)
    (height : right.height < room) (tight : op.precedence < right.head) (h : right.Yields ts)
    (taken : c.next.Takes ts c') (stops : Precedence.ofKind c'.peek.kind ≤ op.precedence)
    (same : left'.relabel .bare = left.relabel .bare) : ∃ e', g.continuation left' c = .ok e' c' ∧
      e'.relabel .bare = (Expr.binary s op left right).relabel .bare ∧
      (Expr.binary s op left right).height = 1 + max left.height e'.trailingHeight := by
  have mark := BinaryOp.precedence_of_kind kind
  obtain ⟨right', run, alike⟩ := reads.expression every height h taken tight stops
  refine ⟨_, continuation_ok.mpr (.inr (.inr (.inr ⟨op, kind,
    operationOn_ok.mpr ⟨right', c', by rw [mark]; exact run, rfl, rfl⟩⟩))), ?_, ?_⟩
  · rw [Expr.relabel, same, alike]
    rfl
  · rw [Expr.height, Expr.trailingHeight, height_of_alike alike]

theorem assignment (reads : g.Reads room) {s : Span} {op : AssignOp} {target value target' : Expr}
    (kind : AssignOp.ofKind? c.peek.kind = some op) (assignable : target.isAssignable = true)
    (every : value.Every readable) (height : value.height < room) (h : value.Yields ts)
    (taken : c.next.Takes ts c') (stops : Precedence.ofKind c'.peek.kind = .lowest)
    (same : target'.relabel .bare = target.relabel .bare) :
    ∃ e', g.continuation target' c = .ok e' c' ∧
      e'.relabel .bare = (Expr.assign s op target value).relabel .bare ∧
      (Expr.assign s op target value).height = 1 + max target.height e'.trailingHeight := by
  obtain ⟨value', run, alike⟩ := reads.value every height h taken stops
  have still : target'.isAssignable = true := by
    rw [← Expr.isAssignable_relabel (r := .bare), same, Expr.isAssignable_relabel, assignable]
  refine ⟨_, continuation_ok.mpr (.inr (.inr (.inl ⟨op, kind,
    assignmentTo_ok.mpr ⟨still, value', c', run, rfl, rfl⟩⟩))), ?_, ?_⟩
  · rw [Expr.relabel, same, alike]
    rfl
  · rw [Expr.height, Expr.trailingHeight, height_of_alike alike]

theorem call (reads : g.Reads room) {s : Span} {callee callee' : Expr} {args : List Expr}
    (every : argsEvery readable args) (height : argsHeight args < room)
    (h : Enclosed .leftParen .rightParen (argsYield args) ts) (taken : c.Takes ts c')
    (same : callee'.relabel .bare = callee.relabel .bare) :
    ∃ e', g.continuation callee' c = .ok e' c' ∧
      e'.relabel .bare = (Expr.call s callee args).relabel .bare ∧
      (Expr.call s callee args).height = 1 + max callee.height e'.trailingHeight := by
  obtain ⟨opens, ms, c₁, yields, within, closes, last⟩ := taken.enclosed h
  obtain ⟨args', run, alike⟩ := reads.args every height yields within closes
  refine ⟨_, continuation_ok.mpr (.inl ⟨opens,
    callOf_ok.mpr ⟨args', c₁, run, closes, rfl, last⟩⟩), ?_, ?_⟩
  · rw [Expr.relabel, same, alike]
    rfl
  · rw [Expr.height, Expr.trailingHeight, ← argsHeight_relabel (r := .bare) args', alike,
      argsHeight_relabel]

theorem member {s : Span} {object object' : Expr} {property : String} {d t : Shape}
    (dot : d.kind = .dot) (name : t.isProperty = true) (text : t.text = property)
    (taken : c.Takes [d, t] c') (same : object'.relabel .bare = object.relabel .bare) :
    ∃ e', g.continuation object' c = .ok e' c' ∧
      e'.relabel .bare = (Expr.member s object property).relabel .bare ∧
      (Expr.member s object property).height = 1 + max object.height e'.trailingHeight := by
  have second : c.next.peek.shape = t := taken.2.2.1
  rw [Shape.isProperty_iff, ← second] at name
  refine ⟨_, continuation_ok.mpr (.inr (.inl ⟨by rw [taken.kind, dot], memberOf_ok.mpr
    ⟨property, c', property_ok.mpr ⟨name, ?_, taken.2.2.2.2⟩, rfl, rfl⟩⟩)), ?_, ?_⟩
  · rw [← text, ← second]
    rfl
  · rw [Expr.relabel, same]
    rfl
  · simp [Expr.height, Expr.trailingHeight]

/-! ### What stands behind a left operand -/

section

variable {s : Span} {min : Precedence}

theorem along_binary (reads : g.Reads room) {op : BinaryOp} {left right : Expr}
    (along : Along g room min left) (every : (Expr.binary s op left right).Every readable)
    (height : (Expr.binary s op left right).height ≤ room) :
    Along g room min (.binary s op left right) := by
  rintro _ c c' ⟨ls, t, rs, rfl, first, kind, second⟩ taken loose stops
  obtain ⟨c₁, before, behind⟩ := Cursor.takes_append.mp taken
  obtain ⟨leftLadder, rightLadder⟩ := Expr.laddered_binary.mp every.1.1
  have mark : Precedence.ofKind c₁.peek.kind = op.precedence := by
    rw [behind.kind, BinaryOp.precedence_of_kind kind]
  refine spine_more along first before behind (by simp) (by rw [mark]; exact loose)
    (by rw [mark]; exact leftLadder) (fun left' same => ?_) height
  rw [Expr.height] at height
  exact reads.operation (by rw [behind.kind, kind]) every.2.2 (by omega) rightLadder second
    behind.2.2 stops same

theorem along_assign (reads : g.Reads room) {op : AssignOp} {target value : Expr}
    (along : Along g room min target) (every : (Expr.assign s op target value).Every readable)
    (height : (Expr.assign s op target value).height ≤ room) :
    Along g room min (.assign s op target value) := by
  rintro _ c c' ⟨ls, t, rs, rfl, first, kind, second⟩ taken loose stops
  obtain ⟨c₁, before, behind⟩ := Cursor.takes_append.mp taken
  have mark : Precedence.ofKind c₁.peek.kind = .assignment := by
    rw [behind.kind, AssignOp.precedence_of_kind kind]
  have assignable : target.isAssignable = true := every.1.1
  have tight : target.tail = .postfixed := by
    cases target <;> first | rfl | cases assignable
  refine spine_more along first before behind (by simp) (by rw [mark]; exact loose)
    (by rw [mark, tight]; decide) (fun target' same => ?_) height
  rw [Expr.height] at height
  exact reads.assignment (by rw [behind.kind, kind]) assignable every.2.2 (by omega) second
    behind.2.2 (Precedence.le_lowest stops) same

theorem along_call (reads : g.Reads room) {callee : Expr} {args : List Expr}
    (along : Along g room min callee) (every : (Expr.call s callee args).Every readable)
    (height : (Expr.call s callee args).height ≤ room) :
    Along g room min (.call s callee args) := by
  rintro _ c c' ⟨ls, ms, rfl, first, enclosed⟩ taken loose stops
  obtain ⟨c₁, before, behind⟩ := Cursor.takes_append.mp taken
  have tight := Expr.laddered_call.mp every.1.1
  have mark : c₁.peek.kind = .leftParen := (behind.enclosed enclosed).1
  have some : ms ≠ [] := by
    obtain ⟨l, is, r, rfl, _⟩ := enclosed
    simp
  refine spine_more along first before behind some (by rw [mark]; exact loose)
    (by rw [mark]; exact tight) (fun callee' same => ?_) height
  rw [Expr.height] at height
  exact reads.call every.2.2 (by omega) enclosed behind same

theorem along_member {object : Expr} {property : String} (along : Along g room min object)
    (every : (Expr.member s object property).Every readable)
    (height : (Expr.member s object property).height ≤ room) :
    Along g room min (.member s object property) := by
  rintro _ c c' ⟨ls, d, t, rfl, first, dot, name, text⟩ taken loose stops
  obtain ⟨c₁, before, behind⟩ := Cursor.takes_append.mp taken
  have tight := Expr.laddered_member.mp every.1.1
  have mark : c₁.peek.kind = .dot := by rw [behind.kind, dot]
  exact spine_more along first before behind (by simp) (by rw [mark]; exact loose)
    (by rw [mark]; exact tight) (fun object' same => member dot name text behind same) height

end

/-- An expression is read operator by operator along its left operands. -/
theorem along (reads : g.Reads room) {min : Precedence} : ∀ e : Expr, e.Every readable →
    e.height ≤ room → Along g room min e
  | .literal _ _, _, _ => along_of_operand fun _ _ _ h taken _ => literal h taken
  | .ident _ _, _, _ => along_of_operand fun _ _ _ h taken _ => ident h taken
  | .group _ inner, every, height => by
    rw [Expr.height] at height
    exact along_of_operand fun _ _ _ h taken _ => reads.group every.2 (by omega) h taken
  | .template _ parts, every, height => by
    rw [Expr.height] at height
    exact along_of_operand fun _ _ _ h taken _ => reads.template every.2 (by omega) h taken
  | .unary _ op operand, every, height => by
    rw [Expr.height] at height
    exact along_of_operand fun _ _ _ h taken stops =>
      reads.unary every.2 (by omega) (Expr.laddered_unary.mp every.1.1) h taken stops
  | .await _ operand, every, height => by
    rw [Expr.height] at height
    exact along_of_operand fun _ _ _ h taken stops =>
      reads.await every.2 (by omega) (Expr.laddered_await.mp every.1.1) h taken stops
  | .select _ _ _, every, _ => by cases every.1.2
  | .binary _ op left right, every, height =>
    reads.along_binary
      (along reads left every.2.1 (by rw [Expr.height] at height; omega)) every height
  | .assign _ op target value, every, height =>
    reads.along_assign
      (along reads target every.2.1 (by rw [Expr.height] at height; omega)) every height
  | .call _ callee args, every, height =>
    reads.along_call
      (along reads callee every.2.1 (by rw [Expr.height] at height; omega)) every height
  | .member _ object property, every, height =>
    along_member (along reads object every.2 (by rw [Expr.height] at height; omega)) every height

/-- One level more reads expressions that are one higher. -/
theorem chain (reads : g.Reads room) {e : Expr} {min : Precedence} (every : e.Every readable)
    (height : e.height ≤ room) (h : e.Yields ts) (taken : c.Takes ts c') (loose : min < e.head)
    (stops : Precedence.ofKind c'.peek.kind ≤ min) :
    ∃ e', g.chain room min c = .ok e' c' ∧ e'.relabel .bare = e.relabel .bare := by
  have behind := Expr.le_tail_of_lt_head (Nat.lt_of_le_of_lt stops loose)
  obtain ⟨first, c₁, e', operand, same, steps⟩ :=
    reads.along e every height ts c c' h taken loose behind
  have whole := steps ⟨e', e.height⟩ c' (.done (extend_ok.mpr (.inl ⟨stops, rfl, rfl⟩)))
  exact ⟨e', chain_ok.mpr ⟨first, c₁, operand, _, c', whole.iterate_ok, rfl, rfl⟩, same⟩

end Grammar.Reads

end TwoScript
