import TwoScript.Proofs.Token.Extent

/-!
# Tokens that stand alone

What a token is depends on its own text only. A lexeme that is read again from its characters
alone is the same, so the texts of all tokens of a source, one on each line, are read as the
same tokens: `tokenize_lines`.
-/

namespace TwoScript

/-! ## Lexemes alone -/

def Cut.alone (k : Cut) : Cut :=
  { k with rest := [] }

def Lexeme.alone (l : Lexeme) : Lexeme :=
  { l with rest := [] }

theorem Lexeme.alone_shape (l : Lexeme) : l.alone.shape = l.shape := rfl

theorem splitQuoted_alone (quote : Char) (cs : List Char) :
    splitQuoted quote (splitQuoted quote cs).taken = (splitQuoted quote cs).alone := by
  fun_induction splitQuoted quote cs with
  | case1 => rfl
  | case2 => rfl
  | case3 => rfl
  | case4 => rfl
  | case5 d ds notLine _ ih =>
      rw [Cut.push, Cut.push, splitQuoted_escape _ notLine, ih]
      rfl
  | case6 cs notLine notEscape => exact splitQuoted_close [] notLine notEscape
  | case7 c cs notLine notEscape notQuote ih =>
      rw [Cut.push, splitQuoted_plain _ notLine notEscape notQuote, ih]
      rfl

/-- Something is taken of every text, so the first character taken is the first one. -/
theorem head?_splitTemplate_taken (m : TemplateMode) (cs : List Char) :
    (splitTemplate m cs).taken.head? = cs.head? := by
  cases cs with
  | nil => rfl
  | cons c cs =>
      rw [splitTemplate]
      split <;> rfl

theorem splitTemplate_alone (m : TemplateMode) (cs : List Char) :
    splitTemplate m (splitTemplate m cs).taken = (splitTemplate m cs).alone := by
  fun_induction splitTemplate m cs with
  | case1 m => rfl
  | case2 m c cs tick => simp [splitTemplate, tick, Cut.alone]
  | case3 m c cs notTick ih =>
      rw [Cut.push, splitTemplate, if_neg notTick, head?_splitTemplate_taken, ih]
      rfl

namespace Lexeme

theorem number_alone (cs : List Char) : number (number cs).chars = (number cs).alone := by
  obtain ⟨fraction, chars, literal, fractional, _⟩ := number_extent cs
  have digits : ∀ c ∈ cs.takeWhile isDigit, isDigit c = true :=
    fun c member => List.mem_takeWhile_imp member
  have again := number_of_digits digits fractional NumberEnds.nil
  rw [List.append_nil, ← chars, ← literal, ← number_kind cs] at again
  exact again

theorem word_alone (cs : List Char) : word (word cs).chars = (word cs).alone := by
  have parts : ∀ c ∈ cs.takeWhile isWordPart, isWordPart c = true :=
    fun c member => List.mem_takeWhile_imp member
  have taken := List.takeWhile_eq_self_iff.mpr parts
  have left := List.dropWhile_eq_nil_iff.mpr parts
  simp only [word, alone, taken, left]

theorem quoted_alone (quote : Char) (cs : List Char) :
    quoted quote (splitQuoted quote cs).taken = (quoted quote cs).alone := by
  simp [quoted, alone, splitQuoted_alone, Cut.alone]

theorem template_alone (cs : List Char) :
    template (splitTemplate .text cs).taken = (template cs).alone := by
  simp [template, alone, splitTemplate_alone, Cut.alone]

theorem symbol_alone {c : Char} {cs ds : List Char} (chars : (symbol c cs).chars = c :: ds) :
    symbol c ds = (symbol c cs).alone := by
  unfold symbol at chars ⊢
  cases pair : cs.head?.bind (symbolPair? c) with
  | some kind =>
      obtain ⟨d, next, found⟩ := Option.bind_eq_some_iff.mp pair
      obtain ⟨rest, rfl⟩ := List.head?_eq_some_iff.mp next
      simp only [pair, List.take_succ_cons, List.take_zero, List.cons.injEq, true_and] at chars
      simp [← chars, found, alone]
  | none =>
      simp only [pair, List.cons.injEq, true_and] at chars
      simp [← chars, alone]

/-- A lexeme is read again from its own characters. -/
theorem read_alone {c : Char} {cs ds : List Char} (chars : (read c cs).chars = c :: ds) :
    read c ds = (read c cs).alone := by
  by_cases digit : isDigit c = true
  · simp only [read, if_pos digit] at chars ⊢
    rw [← chars, number_alone]
  by_cases start : isWordStart c = true
  · simp only [read, if_neg digit, if_pos start] at chars ⊢
    rw [← chars, word_alone]
  by_cases mark : c = '"' ∨ c = '\''
  · simp only [read, if_neg digit, if_neg start, if_pos mark] at chars ⊢
    rw [← (List.cons.inj chars).2, quoted_alone]
  by_cases tick : c = '`'
  · simp only [read, if_neg digit, if_neg start, if_neg mark, if_pos tick] at chars ⊢
    rw [← (List.cons.inj chars).2, template_alone]
  · simp only [read, if_neg digit, if_neg start, if_neg mark, if_neg tick] at chars ⊢
    exact symbol_alone chars

end Lexeme

/-! ## Lines of tokens -/

/-- The text of a token is read as this one token. -/
theorem shapes_read_chars {c : Char} {cs : List Char} (begins : beginsLexeme c cs = true) :
    shapes (Lexeme.read c cs).chars = [(Lexeme.read c cs).shape] := by
  obtain ⟨ds, chars⟩ := List.head?_eq_some_iff.mp (head?_read_chars c cs)
  have whole := Lexeme.read_append c cs
  rw [chars, List.cons_append] at whole
  have alone : beginsLexeme c ds = true := by
    -- The text begins with a comment if its first two characters do.
    rw [← (List.cons.inj whole).2] at begins
    cases ds with
    | nil => simp_all [beginsLexeme]
    | cons d ds => exact begins
  rw [chars, shapes_cons alone, Lexeme.read_alone chars, Lexeme.alone_shape]
  exact congrArg _ shapes_nil

theorem shapes_newline {cs : List Char} (ds : List Char)
    (closed : ∀ t ∈ shapes cs, t.kind ≠ .invalid .unterminatedTemplate) :
    shapes (cs ++ '\n' :: ds) = shapes cs ++ shapes ds := by
  obtain ⟨ts, alone, both⟩ := tokensFrom_newline .first ds closed
  obtain ⟨us, behind, same⟩ := exists_tokensFrom (Place.first.after (cs ++ ['\n'])) ds
  rw [behind, ← List.append_assoc] at both
  rw [shapes_eq_of_tokensFrom both, List.map_append, same, shapes_eq_of_tokensFrom alone]

def shapeLines (ts : List Shape) : List Char :=
  ['\n'].intercalate (ts.map fun t => t.text.toList)

/-- Only the last token can be a template that is left open, so every other one ends with its
line. -/
theorem shapes_shapeLines (cs : List Char) : shapes (shapeLines (shapes cs)) = shapes cs := by
  induction cs using lexemes_induction with
  | blank cs split =>
      rw [shapes_of_split split]
      exact shapes_nil
  | lexeme cs gap c rest split _ later =>
      have first := shapes_read_chars (beginsLexeme_of_split split)
      have text : (Lexeme.read c rest).shape.text.toList = (Lexeme.read c rest).chars :=
        String.toList_ofList
      rw [shapes_of_split_cons split]
      cases others : shapes (Lexeme.read c rest).rest with
      | nil => simpa [shapeLines, text] using first
      | cons u us =>
          have closed : (Lexeme.read c rest).kind ≠ .invalid .unterminatedTemplate := by
            intro opened
            rw [Lexeme.read_rest_of_unterminated opened, shapes_nil] at others
            cases others
          have lines : shapeLines ((Lexeme.read c rest).shape :: u :: us) =
              (Lexeme.read c rest).chars ++ '\n' :: shapeLines (u :: us) := by
            simp [shapeLines, text, List.intercalate_cons_cons]
          rw [others] at later
          rw [lines, shapes_newline _ (by simpa [first, Lexeme.shape] using closed), first, later]
          rfl

/-- The texts of the tokens of a source, one on each line, are read as tokens of the same kinds,
texts and values, whatever is wrong with some of them. -/
theorem tokenize_lines (source : String) :
    (tokenize ("\n".intercalate
        (((tokenize source).filter (·.kind ≠ .endOfFile)).map Token.text))).map Token.shape =
      (tokenize source).map Token.shape := by
  obtain ⟨ts, tokens, same⟩ := exists_tokensFrom .first source.toList
  have inner : ts.filter (·.kind ≠ .endOfFile) = ts := by
    refine List.filter_eq_self.mpr fun t member => decide_eq_true ?_
    exact (lexed_of_mem_shapes (same ▸ List.mem_map_of_mem member)).kind_ne_end
  have texts : ("\n".intercalate (((tokenize source).filter (·.kind ≠ .endOfFile)).map
      Token.text)).toList = shapeLines (shapes source.toList) := by
    rw [tokenize, tokens, List.filter_append, inner, ← same]
    simp [shapeLines, String.toList_intercalate, endToken, Function.comp_def]
  obtain ⟨us, again, alike⟩ := exists_tokensFrom .first (shapeLines (shapes source.toList))
  rw [tokenize, texts, again, tokenize, tokens, List.map_append, List.map_append, alike, same,
    shapes_shapeLines]
  rfl

end TwoScript
