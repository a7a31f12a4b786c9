import TwoScript.Proofs.Token.Concat
import TwoScript.Proofs.Token.Lossless

/-!
# Lines

A line feed ends every token but a template. Whatever is wrong in front of it, a character
that begins no token, a string without its second quote or a backslash with nothing to hide,
the text behind it is read as if it stood alone.
-/

namespace TwoScript

theorem kind_of_mem_shapes {P : Kind → Prop} {source : String}
    (h : ∀ t ∈ tokenize source, P t.kind) : ∀ t ∈ shapes source.toList, P t.kind := by
  obtain ⟨ts, tokens, same⟩ := exists_tokensFrom .first source.toList
  intro t member
  obtain ⟨u, found, rfl⟩ := List.mem_map.mp (same ▸ member)
  apply h
  rw [tokenize, tokens]
  exact List.mem_append_left _ found

/-- The tokens of two texts with a line feed between them are those of the first without its
end, followed by those of the second, which keep everything but their place. -/
theorem tokenize_line_append (first second : String)
    (closed : ∀ t ∈ tokenize first, t.kind ≠ .invalid .unterminatedTemplate) :
    ∃ ts last, tokenize first = ts ++ [last] ∧ last.kind = .endOfFile ∧
      tokenize (first ++ "\n" ++ second) = ts ++ (tokenize second).map
        (Token.shift (first.utf8ByteSize + 1) (first.toList.count '\n' + 1)) := by
  have text : (first ++ "\n" ++ second).toList = first.toList ++ '\n' :: second.toList := by simp
  have ended : ∀ t ∈ shapes first.toList, t.kind ≠ .invalid .unterminatedTemplate :=
    kind_of_mem_shapes (P := (· ≠ .invalid .unterminatedTemplate)) closed
  obtain ⟨ts, alone, both⟩ := tokensFrom_newline .first second.toList ended
  refine ⟨ts, endToken (Place.first.after first.toList), alone, rfl, ?_⟩
  rw [Place.first_after_newline, tokensFrom_shift, byteLength_toList] at both
  rw [tokenize, text]
  exact both

/-- A character that begins no token and a string that ends with a backslash, on the second
line of the first text. -/
theorem tokenize_line_append_faults :
    ((tokenize "a\n# 'b\\").map fun t => (t.kind, t.text)) =
      [(.identifier, "a"), (.invalid .unexpectedCharacter, "#"),
        (.invalid .unterminatedString, "'b\\"), (.endOfFile, "")] ∧
    ∃ ts last, tokenize "a\n# 'b\\" = ts ++ [last] ∧ last.kind = .endOfFile ∧
      tokenize ("a\n# 'b\\" ++ "\n" ++ "c '") =
        ts ++ (tokenize "c '").map (Token.shift 8 2) := by
  have kinds : ((tokenize "a\n# 'b\\").map fun t => (t.kind, t.text)) =
      [(.identifier, "a"), (.invalid .unexpectedCharacter, "#"),
        (.invalid .unterminatedString, "'b\\"), (.endOfFile, "")] := by
    decide +kernel
  have closed : ∀ t ∈ tokenize "a\n# 'b\\", t.kind ≠ .invalid .unterminatedTemplate := by
    intro t member
    have listed := List.mem_map_of_mem (f := fun t : Token => (t.kind, t.text)) member
    rw [kinds] at listed
    intro opened
    simp [opened] at listed
  exact ⟨kinds, tokenize_line_append _ _ closed⟩

end TwoScript
