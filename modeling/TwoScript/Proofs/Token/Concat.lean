import TwoScript.Proofs.Token.Lexed

/-!
# Texts one behind the other

A line feed separates tokens: unless a template is left open, the tokens of a text do
not depend on what follows a line feed behind it. The tokens that follow are those of
the second text, moved to where it begins.
-/

namespace TwoScript

/-! ## Runs of characters -/

section

variable {p : Char → Bool} {ds : List Char}

/-- A run ends with the text if what follows does not begin with a character of it. -/
theorem takeWhile_append_stop (h : ∀ c, ds.head? = some c → p c = false) (cs : List Char) :
    (cs ++ ds).takeWhile p = cs.takeWhile p := by
  induction cs with
  | nil => cases ds <;> simp_all
  | cons c cs ih => simp [List.takeWhile_cons, ih]

theorem dropWhile_append_stop (h : ∀ c, ds.head? = some c → p c = false) (cs : List Char) :
    (cs ++ ds).dropWhile p = cs.dropWhile p ++ ds := by
  induction cs with
  | nil => cases ds <;> simp_all
  | cons c cs ih =>
      simp only [List.cons_append, List.dropWhile_cons, ih]
      split <;> rfl

end

/-! ## Lexemes in front of a line feed -/

def Cut.append (k : Cut) (more : List Char) : Cut :=
  { k with rest := k.rest ++ more }

def Lexeme.append (l : Lexeme) (more : List Char) : Lexeme :=
  { l with rest := l.rest ++ more }

theorem splitQuoted_line (quote : Char) (cs : List Char) :
    splitQuoted quote ('\n' :: cs) = ⟨false, [], '\n' :: cs⟩ := by
  rw [splitQuoted.eq_def]
  rfl

theorem splitQuoted_escape {quote d : Char} (cs : List Char) (h : d ≠ '\n') :
    splitQuoted quote ('\\' :: d :: cs) = ((splitQuoted quote cs).push d).push '\\' := by
  rw [splitQuoted.eq_def]
  simp [h]

theorem splitQuoted_close {quote : Char} (cs : List Char) (notLine : quote ≠ '\n')
    (notEscape : quote ≠ '\\') : splitQuoted quote (quote :: cs) = ⟨true, [quote], cs⟩ := by
  rw [splitQuoted.eq_def]
  simp [notLine, notEscape]

theorem splitQuoted_plain {quote c : Char} (cs : List Char) (notLine : c ≠ '\n')
    (notEscape : c ≠ '\\') (notQuote : c ≠ quote) :
    splitQuoted quote (c :: cs) = (splitQuoted quote cs).push c := by
  rw [splitQuoted.eq_def]
  simp [notLine, notEscape, notQuote]

theorem splitQuoted_newline (quote : Char) (cs ds : List Char) :
    splitQuoted quote (cs ++ '\n' :: ds) = (splitQuoted quote cs).append ('\n' :: ds) := by
  fun_induction splitQuoted quote cs with
  | case1 => exact splitQuoted_line quote ds
  | case2 cs => exact splitQuoted_line quote _
  | case3 =>
      rw [splitQuoted.eq_def]
      simp [Cut.append]
  | case4 =>
      rw [splitQuoted.eq_def]
      simp [Cut.append]
  | case5 d ds' notLine _ ih =>
      rw [List.cons_append, List.cons_append, splitQuoted_escape _ notLine, ih]
      rfl
  | case6 cs notLine notEscape =>
      rw [List.cons_append, splitQuoted_close _ notLine notEscape]
      rfl
  | case7 c cs notLine notEscape notQuote ih =>
      rw [List.cons_append, splitQuoted_plain _ notLine notEscape notQuote, ih]
      rfl

/-- A closed template ends where it ends, whatever follows. -/
theorem splitTemplate_append_of_closed {m : TemplateMode} {cs : List Char} (more : List Char)
    (h : (splitTemplate m cs).closed = true) :
    splitTemplate m (cs ++ more) = (splitTemplate m cs).append more := by
  fun_induction splitTemplate m cs with
  | case1 m => cases h
  | case2 m c cs tick => simp [splitTemplate, tick, Cut.append]
  | case3 m c cs notTick ih =>
      cases cs with
      | nil => cases h
      | cons d ds =>
          have step := ih h
          simp only [List.cons_append, List.head?_cons] at step ⊢
          rw [splitTemplate, if_neg notTick, List.head?_cons, step]
          rfl

namespace Lexeme

theorem number_newline (cs ds : List Char) :
    number (cs ++ '\n' :: ds) = (number cs).append ('\n' :: ds) := by
  have stop : ∀ c, ('\n' :: ds).head? = some c → isDigit c = false := by
    rintro c ⟨⟩
    decide
  have whole := takeWhile_append_stop stop cs
  have behind := dropWhile_append_stop stop cs
  unfold number
  rw [whole, behind]
  rcases cs.dropWhile isDigit with _ | ⟨c, _ | ⟨d, rest⟩⟩
  · rfl
  · by_cases point : c = '.'
    · subst point
      rfl
    · simp [append, point]
  · by_cases point : c = '.'
    · subst point
      have fraction := takeWhile_append_stop stop (d :: rest)
      have last := dropWhile_append_stop stop (d :: rest)
      simp only [List.cons_append] at fraction last ⊢
      split
      · simp [append, fraction, last]
      · simp [append]
    · simp [append, point]

theorem word_newline (cs ds : List Char) :
    word (cs ++ '\n' :: ds) = (word cs).append ('\n' :: ds) := by
  have stop : ∀ c, ('\n' :: ds).head? = some c → isWordPart c = false := by
    rintro c ⟨⟩
    decide
  simp [word, append, takeWhile_append_stop stop, dropWhile_append_stop stop]

theorem quoted_newline (quote : Char) (cs ds : List Char) :
    quoted quote (cs ++ '\n' :: ds) = (quoted quote cs).append ('\n' :: ds) := by
  simp [quoted, splitQuoted_newline, Cut.append, append]

theorem template_append_of_closed {cs : List Char} (more : List Char)
    (h : (template cs).kind ≠ .invalid .unterminatedTemplate) :
    template (cs ++ more) = (template cs).append more := by
  have closed : (splitTemplate .text cs).closed = true := by
    cases closed : (splitTemplate .text cs).closed with
    | true => rfl
    | false => simp [template, closed] at h
  simp [template, splitTemplate_append_of_closed more closed, Cut.append, append]

theorem symbol_newline (c : Char) (cs ds : List Char) :
    symbol c (cs ++ '\n' :: ds) = (symbol c cs).append ('\n' :: ds) := by
  cases cs with
  | nil =>
      have single : symbolPair? c '\n' = none := by
        unfold symbolPair?
        split <;> simp_all
      simp [symbol, single, append]
  | cons d cs =>
      cases pair : symbolPair? c d with
      | none => simp [symbol, pair, append]
      | some kind => simp [symbol, pair, append]

/-- A lexeme in front of a line feed is the same whatever follows the line feed. -/
theorem read_newline {c : Char} {cs : List Char} (ds : List Char)
    (h : (read c cs).kind ≠ .invalid .unterminatedTemplate) :
    read c (cs ++ '\n' :: ds) = (read c cs).append ('\n' :: ds) := by
  cases manner c with
  | number _ lexeme =>
      rw [lexeme, lexeme]
      exact number_newline (c :: cs) ds
  | word _ lexeme =>
      rw [lexeme, lexeme]
      exact word_newline (c :: cs) ds
  | quoted _ lexeme => rw [lexeme, lexeme, quoted_newline]
  | template _ lexeme =>
      rw [lexeme] at h
      rw [lexeme, lexeme, template_append_of_closed _ h]
  | symbol lexeme => rw [lexeme, lexeme, symbol_newline]

end Lexeme

/-! ## Blanks in front of a line feed -/

theorem splitBlank_newline_of_cons {comment : Bool} {cs blanks rest : List Char} {c : Char}
    (ds : List Char) (h : splitBlank comment cs = (blanks, c :: rest)) :
    splitBlank comment (cs ++ '\n' :: ds) = (blanks, c :: (rest ++ '\n' :: ds)) := by
  induction cs generalizing comment blanks with
  | nil => simp [splitBlank] at h
  | cons d cs ih =>
      have ahead : ((cs ++ '\n' :: ds).head? == some '/') = (cs.head? == some '/') := by
        cases cs <;> rfl
      rw [List.cons_append, splitBlank, ahead]
      rw [splitBlank] at h
      split
      · rename_i blank
        rw [if_pos blank] at h
        rcases tail : splitBlank (if comment = true then d != '\n' else d == '/') cs with ⟨bs, rs⟩
        rw [tail, Prod.mk.injEq] at h
        obtain ⟨rfl, rfl⟩ := h
        simp [ih tail]
      · rename_i blank
        rw [if_neg blank, Prod.mk.injEq, List.cons.injEq] at h
        obtain ⟨rfl, rfl, rfl⟩ := h
        rfl

theorem splitBlank_newline_of_nil {comment : Bool} {cs blanks : List Char} (ds : List Char)
    (h : splitBlank comment cs = (blanks, [])) :
    splitBlank comment (cs ++ '\n' :: ds) =
      (cs ++ '\n' :: (splitBlank false ds).1, (splitBlank false ds).2) := by
  induction cs generalizing comment blanks with
  | nil => cases comment <;> simp [splitBlank, isBlank]
  | cons d cs ih =>
      have ahead : ((cs ++ '\n' :: ds).head? == some '/') = (cs.head? == some '/') := by
        cases cs <;> rfl
      rw [List.cons_append, splitBlank, ahead]
      rw [splitBlank] at h
      split
      · rename_i blank
        rw [if_pos blank] at h
        rcases tail : splitBlank (if comment = true then d != '\n' else d == '/') cs with ⟨bs, rs⟩
        rw [tail, Prod.mk.injEq] at h
        obtain ⟨rfl, rfl⟩ := h
        simp [ih tail]
      · rename_i blank
        rw [if_neg blank, Prod.mk.injEq] at h
        cases h.2

/-! ## Tokens -/

/-- Behind a line feed the tokens of the second text follow those of the first. -/
theorem tokensFrom_newline (p : Place) {cs : List Char} (ds : List Char)
    (closed : ∀ t ∈ shapes cs, t.kind ≠ .invalid .unterminatedTemplate) :
    ∃ ts, tokensFrom p cs = ts ++ [endToken (p.after cs)] ∧
      tokensFrom p (cs ++ '\n' :: ds) = ts ++ tokensFrom (p.after (cs ++ ['\n'])) ds := by
  induction cs using lexemes_induction generalizing p with
  | blank cs split =>
      have whole := splitBlank_newline_of_nil ds split
      refine ⟨[], tokensFrom_of_split p split, ?_⟩
      have place : ∀ bs, p.after (cs ++ '\n' :: bs) = (p.after (cs ++ ['\n'])).after bs := by
        intro bs
        rw [← Place.after_append]
        simp
      rcases behind : splitBlank false ds with ⟨bs, _ | ⟨d, rest⟩⟩
      · rw [behind] at whole
        rw [tokensFrom_of_split p whole, tokensFrom_of_split _ behind, place]
        rfl
      · rw [behind] at whole
        rw [tokensFrom_of_split_cons p whole, tokensFrom_of_split_cons _ behind, place]
        rfl
  | lexeme cs blanks c rest split text ih =>
      have line : blanks ++ ((Lexeme.read c rest).chars ++ ((Lexeme.read c rest).rest ++ ['\n'])) =
          cs ++ ['\n'] := by
        rw [← text]
        simp
      have whole := splitBlank_newline_of_cons ds split
      rw [shapes_of_split_cons split] at closed
      have first := Lexeme.read_newline ds (closed _ List.mem_cons_self)
      obtain ⟨ts, alone, followed⟩ := ih ((p.after blanks).after (Lexeme.read c rest).chars)
        (fun t ht => closed t (List.mem_cons_of_mem _ ht))
      refine ⟨(Lexeme.read c rest).token (p.after blanks) :: ts, ?_, ?_⟩
      · rw [tokensFrom_of_split_cons p split, alone, ← Place.after_append, ← Place.after_append,
          text]
        rfl
      · rw [tokensFrom_of_split_cons p whole, first]
        simp only [Lexeme.append, Lexeme.token]
        rw [followed, ← Place.after_append, ← Place.after_append, line]
        rfl

/-- A template that is left open takes the rest of the text. -/
theorem splitTemplate_rest {m : TemplateMode} {cs : List Char}
    (h : (splitTemplate m cs).closed = false) : (splitTemplate m cs).rest = [] := by
  fun_induction splitTemplate m cs with
  | case1 m => rfl
  | case2 m c cs tick => cases h
  | case3 m c cs notTick ih => exact ih h

theorem Lexeme.read_rest_of_unterminated {c : Char} {cs : List Char}
    (h : (read c cs).kind = .invalid .unterminatedTemplate) : (read c cs).rest = [] := by
  have asTemplate := read_fault h
  rw [asTemplate] at h ⊢
  apply splitTemplate_rest (m := .text)
  cases closed : (splitTemplate .text cs).closed with
  | false => rfl
  | true => simp [template, closed] at h

/-- A template that is left open is the last token. -/
theorem getLast?_of_unterminated {cs : List Char} {t : Shape} (h : t ∈ shapes cs)
    (opened : t.kind = .invalid .unterminatedTemplate) : (shapes cs).getLast? = some t := by
  induction cs using lexemes_induction with
  | blank cs split =>
      rw [shapes_of_split split] at h
      cases h
  | lexeme cs blanks c rest split _ ih =>
      rw [shapes_of_split_cons split] at h ⊢
      rcases List.mem_cons.mp h with rfl | later
      · rw [Lexeme.read_rest_of_unterminated opened]
        simp
      · rw [List.getLast?_cons, ih later]
        rfl

/-! ## Moving a text -/

def Place.shift (bytes lines : Nat) (p : Place) : Place :=
  ⟨p.offset + bytes, p.line + lines⟩

theorem Place.shift_after (bytes lines : Nat) (p : Place) (cs : List Char) :
    (p.shift bytes lines).after cs = (p.after cs).shift bytes lines := by
  simp [shift, after, Nat.add_right_comm]

theorem Place.shift_span (bytes lines : Nat) (p : Place) (cs : List Char) :
    (p.shift bytes lines).span cs = (p.span cs).shift bytes lines := by
  simp [shift, span, Span.shift, Nat.add_right_comm]

theorem Place.first_after_newline (cs : List Char) :
    Place.first.after (cs ++ ['\n']) = Place.first.shift (byteLength cs + 1) (lineFeeds cs + 1) := by
  simp [Place.after, Place.shift, Place.first, byteLength_cons, lineFeeds, Char.utf8Size]

/-- The tokens of a text move with it. -/
theorem tokensFrom_shift (bytes lines : Nat) (p : Place) (cs : List Char) :
    tokensFrom (p.shift bytes lines) cs = (tokensFrom p cs).map (Token.shift bytes lines) := by
  induction cs using lexemes_induction generalizing p with
  | blank cs split =>
      rw [tokensFrom_of_split _ split, tokensFrom_of_split _ split, Place.shift_after]
      rfl
  | lexeme cs blanks c rest split _ ih =>
      rw [tokensFrom_of_split_cons _ split, tokensFrom_of_split_cons _ split, Place.shift_after,
        Place.shift_after, ih, List.map_cons]
      simp only [Lexeme.token, Place.shift_span]
      rfl

end TwoScript
