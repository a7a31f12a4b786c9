import Mathlib.Data.List.TakeWhile
import TwoScript.Proofs.Parse.Recovery

/-!
# The end of the input

A list of tokens may lack the token for its end, or go on behind it. A caller who reads
expressions and programs from it, in any order, gets the same answers as from a list that
is ended properly: `answers_ofTokens`. All that is seen of the token for the end is its
span, and whether its text is a keyword, which would pass for a property behind a dot.
-/

namespace TwoScript

/-! ## Calls -/

/-- What a caller can ask for: an expression, or everything up to the end as a program. -/
inductive Call where
  | expression
  | program
deriving DecidableEq, Repr

inductive Answer where
  | expression (outcome : Except ParseError Expr)
  | program (program : Program)

namespace Cursor

/-- The answer to one call, and the cursor at which the next one begins. A call that fails
leaves the cursor where it failed. -/
def answer (c : Cursor) : Call → Answer × Cursor
  | .expression =>
    match c.expression with
    | .ok e c' => (.expression (.ok e), c')
    | .error e c' => (.expression (.error e), c')
  | .program => (.program c.program.1, c.program.2)

def answers (c : Cursor) : List Call → List Answer
  | [] => []
  | call :: calls => (c.answer call).1 :: (c.answer call).2.answers calls

end Cursor

/-! ## Cursors that differ in their end -/

/-- Cursors with the same tokens ahead, whose ends look alike, give the same answer and
still differ in nothing else. -/
theorem answer_agree {c d : Cursor} (h : (View.shift 0 0).Ahead c d) (call : Call) :
    (c.answer call).1 = (d.answer call).1 ∧
      (View.shift 0 0).Ahead (c.answer call).2 (d.answer call).2 := by
  have agrees := Grammar.agrees_ofRoom (View.shift 0 0) maxNesting
  cases call with
  | program =>
      obtain ⟨programs, behind⟩ := programFrom_agree agrees h
      have same : c.program.1 = d.program.1 := by
        rw [← Program.relabel_same c.program.1, ← Program.relabel_same d.program.1]
        exact programs
      exact ⟨congrArg Answer.program same, behind⟩
  | expression =>
      have start : (Pairing.alike (View.shift 0 0) c.ahead.length).rel ⟨true, 0, false⟩ c d :=
        ⟨h, .inr ⟨rfl, rfl⟩⟩
      unfold Cursor.answer
      rcases (agrees.expression .lowest start).ends with
        ⟨e, e', c', d', left, right, same, there, _⟩ |
        ⟨e, e', c', d', _, left, right, same, there, _⟩
      · have left : c.expression = .ok e c' := left
        have right : d.expression = .ok e' d' := right
        have equal : e = e' := by
          rw [← Expr.relabel_same e, ← Expr.relabel_same e']
          exact same
        simp only [left, right, equal, true_and]
        exact there
      · have left : c.expression = .error e c' := left
        have right : d.expression = .error e' d' := right
        have equal : e = e' := by
          rw [← ParseError.relabel_same e, ← ParseError.relabel_same e']
          exact same
        simp only [left, right, equal, true_and]
        exact there

theorem answers_agree {c d : Cursor} (h : (View.shift 0 0).Ahead c d) (calls : List Call) :
    c.answers calls = d.answers calls := by
  induction calls generalizing c d with
  | nil => rfl
  | cons call calls ih =>
      obtain ⟨same, behind⟩ := answer_agree h call
      rw [Cursor.answers, Cursor.answers, same, ih behind]

/-! ## Lists of tokens -/

namespace View

/-- Tokens look like themselves. -/
theorem similar_self (ts : List Token) (afterDot : Bool) :
    (View.shift 0 0).Similar afterDot ts ts := by
  induction ts generalizing afterDot with
  | nil => trivial
  | cons t ts ih => exact ⟨tokens_of_shape rfl (fun _ => rfl) rfl, fun _ => rfl, ih _⟩

/-- The end of an input is known by its span alone. -/
theorem tokens_of_ends {v : View} {t t' : Token} (left : t.kind = .endOfFile)
    (right : t'.kind = .endOfFile) (span : v.left.span t.span = v.right.span t'.span) :
    v.Tokens t t' where
  kind := by rw [left, right]
  literal inner := absurd left inner
  span := span
  text inner := absurd left inner
  name name := by
    rw [left] at name
    cases name
  type name := by
    rw [left] at name
    rcases name with name | name <;> cases name

/-- Cursors that differ in the text of their ends at most. -/
theorem ahead_of_final {c d : Cursor} (ahead : c.ahead = d.ahead)
    (span : c.final.span = d.final.span) (name : SameProperty c.final d.final) :
    (View.shift 0 0).Ahead c d where
  ahead := ⟨false, by rw [ahead]; exact similar_self d.ahead false⟩
  final := tokens_of_ends c.ends d.ends (by rw [span]; rfl)
  name := name

end View

namespace Cursor

/-- A list without an end is ended behind its last token. -/
theorem ofTokens_endless {ts : List Token} (inner : ∀ u ∈ ts, u.kind ≠ .endOfFile) :
    (ofTokens ts).ahead = ts ∧ (ofTokens ts).final = missingEnd ts := by
  have before : ∀ u ∈ ts, isInner u = true := fun u hu => decide_eq_true (inner u hu)
  constructor
  · exact List.takeWhile_eq_self_iff.mpr before
  · simp [ofTokens, endOf, List.dropWhile_eq_nil_iff.mpr before]

theorem missingEnd_span (ts : List Token) :
    (missingEnd ts).span = ⟨(ts.getLast?.map (·.span.stop)).getD 0,
      (ts.getLast?.map (·.span.stop)).getD 0, (ts.getLast?.map (·.span.line)).getD 1⟩ := by
  unfold missingEnd
  cases ts.getLast? <;> rfl

theorem missingEnd_text (ts : List Token) : (missingEnd ts).text = "" := by
  unfold missingEnd
  cases ts.getLast? <;> rfl

end Cursor

/-- A list of tokens that lacks its end gives the answers of the list with an end at the same
place behind it, unless that end has the text of a keyword. What stands behind an end has no
influence, whatever the text and the place of that end are. -/
theorem answers_ofTokens (ts rest : List Token) (last : Token) (calls : List Call)
    (inner : ∀ t ∈ ts, t.kind ≠ .endOfFile) (ends : last.kind = .endOfFile) :
    (∀ others, (Cursor.ofTokens (ts ++ last :: rest)).answers calls =
        (Cursor.ofTokens (ts ++ last :: others)).answers calls) ∧
      let stop := (ts.getLast?.map (·.span.stop)).getD 0
      let line := (ts.getLast?.map (·.span.line)).getD 1
      (last.span = ⟨stop, stop, line⟩ → keyword? last.text = none →
        (Cursor.ofTokens ts).answers calls =
          (Cursor.ofTokens (ts ++ last :: rest)).answers calls) := by
  obtain ⟨ahead, final⟩ := Cursor.ofTokens_append_cons rest inner ends
  constructor
  · intro others
    obtain ⟨ahead', final'⟩ := Cursor.ofTokens_append_cons others inner ends
    refine answers_agree (View.ahead_of_final ?_ ?_ (.inl ?_)) calls
    · rw [ahead, ahead']
    · rw [final, final']
    · rw [final, final']
  · intro stop line place unnamed
    obtain ⟨ahead', final'⟩ := Cursor.ofTokens_endless inner
    refine answers_agree (View.ahead_of_final ?_ ?_ (.inr ⟨Cursor.ends _, ?_, ?_⟩)) calls
    · rw [ahead, ahead']
    · rw [final, final', place, Cursor.missingEnd_span]
    · rw [final', Cursor.missingEnd_text]
      decide
    · rw [final]
      exact unnamed

def danglingMember : List Token :=
  [⟨.identifier, "a", ⟨0, 1, 1⟩, none⟩, ⟨.dot, ".", ⟨1, 2, 1⟩, none⟩]

/-- An end of the input in the place that `danglingMember` needs, with any text. -/
def endNamed (text : String) : Token :=
  ⟨.endOfFile, text, ⟨2, 2, 1⟩, none⟩

theorem answers_ofTokens_danglingMember :
    (Cursor.ofTokens danglingMember).answers [.expression, .program] =
      (Cursor.ofTokens (danglingMember ++ endNamed "end" :: danglingMember)).answers
        [.expression, .program] := by
  have ended := answers_ofTokens danglingMember danglingMember (endNamed "end")
    [.expression, .program] (by decide) rfl
  exact ended.2 rfl (by decide)

def dangling (text : String) : Cursor :=
  .ofTokens (danglingMember ++ [endNamed text])

def danglingObject : Expr := .ident ⟨0, 1, 1⟩ "a"

theorem operand_dangling (g : Grammar) (text : String) :
    g.operand (dangling text) = .ok danglingObject (dangling text).next :=
  Grammar.operand_ok.mpr (.inr (.inr (.inl ⟨rfl, Grammar.ident_ok.mpr ⟨rfl, rfl⟩⟩)))

/-- An end with the text of a keyword passes for a property. -/
theorem expression_dangling_keyword :
    (dangling "if").expression =
      .ok (.member ⟨0, 2, 1⟩ danglingObject "if") (dangling "if").next.next := by
  have property : Grammar.property (dangling "if").next.next = .ok "if" (dangling "if").next.next :=
    Grammar.property_ok.mpr ⟨.inr (by decide), rfl, rfl⟩
  have member : (Grammar.ofRoom 255).continuation danglingObject (dangling "if").next =
      .ok (.member ⟨0, 2, 1⟩ danglingObject "if") (dangling "if").next.next :=
    Grammar.continuation_ok.mpr
      (.inr (.inl ⟨rfl, Grammar.memberOf_ok.mpr ⟨_, _, property, rfl, rfl⟩⟩))
  have extended : (Grammar.ofRoom 255).extend 255 .lowest ⟨danglingObject, 1⟩
      (dangling "if").next = .ok (some ⟨_, 2⟩) (dangling "if").next.next :=
    Grammar.extend_ok.mpr (.inr ⟨by decide, _, member, by decide, rfl⟩)
  have ended (chain : Chain) : (Grammar.ofRoom 255).extend 255 .lowest chain
      (dangling "if").next.next = .ok none (dangling "if").next.next :=
    Grammar.extend_ok.mpr (.inl ⟨by decide, rfl, rfl⟩)
  have grown := (Parser.Grows.more extended (by decide) (.done (ended _))).iterate_ok
  exact Grammar.chain_ok.mpr ⟨danglingObject, _, operand_dangling _ _, _, _, grown, rfl, rfl⟩

theorem expression_dangling_empty (e : Expr) (c' : Cursor) :
    (dangling "").expression ≠ .ok e c' := by
  intro run
  obtain ⟨first, c₁, operand, whole, c₂, grown, _⟩ := Grammar.chain_ok.mp run
  rw [operand_dangling] at operand
  cases operand
  have grown : Parser.iterate ((Grammar.ofRoom 255).extend 255 .lowest) ⟨danglingObject, 1⟩
      (dangling "").next = .ok whole c₂ := grown
  have failed : (Grammar.ofRoom 255).extend 255 .lowest ⟨danglingObject, 1⟩ (dangling "").next =
      .error (.endOfFile .propertyName ⟨2, 2, 1⟩) (dangling "").next.next := rfl
  rw [Parser.iterate, failed] at grown
  cases grown

/-- The answers of a list that lacks its end differ from those of the list with an end at the
same place behind it, if that end has the text of a keyword. -/
theorem answers_keyword_end :
    (∀ t ∈ danglingMember, t.kind ≠ .endOfFile) ∧
      danglingMember.getLast?.map (·.span) = some ⟨1, 2, 1⟩ ∧
      (endNamed "if").kind = .endOfFile ∧ (endNamed "if").span = ⟨2, 2, 1⟩ ∧
      (Cursor.ofTokens danglingMember).answers [.expression] ≠
        (Cursor.ofTokens (danglingMember ++ [endNamed "if"])).answers [.expression] := by
  refine ⟨by decide, rfl, rfl, rfl, fun same => ?_⟩
  have same : ((dangling "").answer .expression).1 = ((dangling "if").answer .expression).1 :=
    (List.cons.inj same).1
  rw [Cursor.answer, Cursor.answer, expression_dangling_keyword] at same
  cases run : (dangling "").expression with
  | ok e c' => exact expression_dangling_empty e c' run
  | error e c' =>
      rw [run] at same
      cases same

end TwoScript
