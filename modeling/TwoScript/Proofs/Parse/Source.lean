import TwoScript.Proofs.Parse.Run
import TwoScript.Proofs.Parse.Yield
import TwoScript.Proofs.Token.Lexed

/-!
# Cursors over the tokens of a text

At the beginning of a text the cursor has all its shapes ahead, and whatever is ahead
of a cursor that started there was lexed.
-/

namespace TwoScript

namespace Cursor

/-- Everything ahead comes from some text, and nothing is written at its end. -/
structure Lexed (c : Cursor) : Prop where
  ahead : ∀ t ∈ c.ahead, t.shape.Lexed
  final : c.final.text = ""

theorem Lexed.peek {c : Cursor} (h : c.Lexed) (inner : c.peek.kind ≠ .endOfFile) :
    c.peek.shape.Lexed :=
  h.ahead c.peek (peek_mem_ahead inner)

theorem Takes.lexed {c c' : Cursor} {ts : List Shape} (h : c.Takes ts c') (lexed : c.Lexed) :
    c'.Lexed :=
  ⟨fun t ht => lexed.ahead t (h.mem_ahead ht), by rw [h.final_eq, lexed.final]⟩

theorem Reaches.lexed {c c' : Cursor} (h : c.Reaches c') (lexed : c.Lexed) : c'.Lexed := by
  obtain ⟨ts, taken⟩ := h
  exact taken.lexed lexed

theorem Lexed.next {c : Cursor} (h : c.Lexed) : c.next.Lexed := by
  refine ⟨fun t ht => ?_, by rw [next_final, h.final]⟩
  rw [ahead_next] at ht
  exact h.ahead t (List.mem_of_mem_tail ht)

theorem Lexed.isName {c : Cursor} (h : c.Lexed) (name : c.peek.kind = .identifier) :
    isName c.peek.text = true :=
  (h.peek (by simp [name])).isName_text name

/-- A keyword is written with a token. -/
theorem Lexed.ne_end_of_property {c : Cursor} (h : c.Lexed)
    (property : c.peek.shape.isProperty = true) : c.peek.kind ≠ .endOfFile := by
  intro ends
  rw [Shape.isProperty_iff, Token.shape_kind, Token.shape_text, ends,
    peek_of_nil (peek_kind_eq_end.mp ends), h.final] at property
  revert property
  decide

/-! ## The beginning of a text -/

/-- Nothing behind the first end is kept. -/
theorem ofTokens_append_cons {ts : List Token} {t : Token} (rest : List Token)
    (inner : ∀ u ∈ ts, u.kind ≠ .endOfFile) (ends : t.kind = .endOfFile) :
    (ofTokens (ts ++ t :: rest)).ahead = ts ∧ (ofTokens (ts ++ t :: rest)).final = t := by
  have before : ∀ u ∈ ts, isInner u = true := fun u hu => decide_eq_true (inner u hu)
  have stop : isInner t = false := by simp [isInner, ends]
  constructor
  · simp [ofTokens, List.takeWhile_append_of_pos before, stop]
  · simp [ofTokens, endOf, List.dropWhile_append_of_pos before, stop]

theorem ofTokens_eq {p : Place} {cs : List Char} {ts : List Token}
    (whole : tokensFrom p cs = ts ++ [endToken (p.after cs)]) :
    (ofTokens (tokensFrom p cs)).ahead = ts ∧
      (ofTokens (tokensFrom p cs)).final = endToken (p.after cs) := by
  rw [whole]
  refine ofTokens_append_cons [] (fun t ht => ?_) rfl
  have lexed : t.shape.Lexed := by
    apply lexed_of_mem_shapes
    rw [shapes_eq_of_tokensFrom whole]
    exact List.mem_map_of_mem ht
  exact lexed.kind_ne_end

/-- A text is read from its shapes to its end. -/
theorem ofTokens_tokensFrom (p : Place) (cs : List Char) :
    (ofTokens (tokensFrom p cs)).ahead.map Token.shape = shapes cs ∧
      (ofTokens (tokensFrom p cs)).final = endToken (p.after cs) ∧
      (ofTokens (tokensFrom p cs)).Lexed := by
  obtain ⟨ts, whole, same⟩ := exists_tokensFrom p cs
  obtain ⟨ahead, final⟩ := ofTokens_eq whole
  refine ⟨by rw [ahead, same], final, fun t ht => ?_, by rw [final]; rfl⟩
  apply lexed_of_mem_shapes
  rw [← same, ← ahead]
  exact List.mem_map_of_mem ht

end Cursor

end TwoScript
