import TwoScript.Token.Tokenize

/-!
# Tokens apart from their places

Which tokens a text holds does not depend on where it begins. `shapes` lists them
without their spans, which makes reading a text an equation: blanks vanish, and a
lexeme at the front is the first shape.
-/

namespace TwoScript

/-- What a token is, apart from where it stands. -/
structure Shape where
  kind : Kind
  text : String
  literal : Option Literal
deriving DecidableEq, Repr

def Token.shape (t : Token) : Shape :=
  ⟨t.kind, t.text, t.literal⟩

def Lexeme.shape (l : Lexeme) : Shape :=
  ⟨l.kind, String.ofList l.chars, l.literal⟩

@[simp] theorem Token.shape_kind (t : Token) : t.shape.kind = t.kind := rfl

@[simp] theorem Token.shape_text (t : Token) : t.shape.text = t.text := rfl

@[simp] theorem Token.shape_literal (t : Token) : t.shape.literal = t.literal := rfl

@[simp] theorem Lexeme.token_shape (l : Lexeme) (p : Place) : (l.token p).shape = l.shape := rfl

/-! ## One step of the tokenizer -/

/-- Whether a text begins with a lexeme, not with a blank or a comment. -/
def beginsLexeme (c : Char) (cs : List Char) : Bool :=
  !(isBlank c || (c == '/' && cs.head? == some '/'))

theorem splitBlank_of_beginsLexeme {c : Char} {cs : List Char}
    (h : beginsLexeme c cs = true) : splitBlank false (c :: cs) = ([], c :: cs) := by
  rw [splitBlank, if_neg]
  simpa [beginsLexeme, Decidable.imp_iff_not_or] using h

theorem splitBlank_of_isBlank {c : Char} (cs : List Char) (h : isBlank c = true) :
    splitBlank false (c :: cs) = (c :: (splitBlank false cs).1, (splitBlank false cs).2) := by
  have notSlash : (c == '/') = false := by
    rw [beq_eq_false_iff_ne]
    rintro rfl
    simp [isBlank] at h
  rw [splitBlank, if_pos (by simp [h])]
  simp [notSlash]

theorem tokensFrom_of_split {cs blanks : List Char} (p : Place)
    (h : splitBlank false cs = (blanks, [])) :
    tokensFrom p cs = [endToken (p.after blanks)] := by
  rw [tokensFrom]
  split
  · simp [h]
  · rename_i nonempty
    simp [h] at nonempty

theorem tokensFrom_of_split_cons {cs blanks rest : List Char} {c : Char} (p : Place)
    (h : splitBlank false cs = (blanks, c :: rest)) :
    tokensFrom p cs = (Lexeme.read c rest).token (p.after blanks)
      :: tokensFrom ((p.after blanks).after (Lexeme.read c rest).chars)
        (Lexeme.read c rest).rest := by
  rw [tokensFrom]
  split
  · simp_all
  · rename_i d ds split
    rw [h] at split
    cases split
    simp [h]

theorem tokensFrom_nil (p : Place) : tokensFrom p [] = [endToken p] := by
  rw [tokensFrom_of_split p rfl, Place.after_nil]

theorem tokensFrom_cons {c : Char} {cs : List Char} (p : Place)
    (h : beginsLexeme c cs = true) :
    tokensFrom p (c :: cs) = (Lexeme.read c cs).token p
      :: tokensFrom (p.after (Lexeme.read c cs).chars) (Lexeme.read c cs).rest :=
  tokensFrom_of_split_cons p (splitBlank_of_beginsLexeme h)

theorem tokensFrom_blank {c : Char} (p : Place) (cs : List Char) (h : isBlank c = true) :
    tokensFrom p (c :: cs) = tokensFrom (p.after [c]) cs := by
  have whole := splitBlank_of_isBlank cs h
  rcases tail : splitBlank false cs with ⟨blanks, _ | ⟨d, ds⟩⟩
  · rw [tail] at whole
    rw [tokensFrom_of_split p whole, tokensFrom_of_split _ tail, ← Place.after_append]
    rfl
  · rw [tail] at whole
    rw [tokensFrom_of_split_cons p whole, tokensFrom_of_split_cons _ tail,
      ← Place.after_append p [c] blanks]
    rfl

/-- Induction along a text, lexeme by lexeme: a text is blank, or behind blanks it has a lexeme
and goes on from there. -/
@[elab_as_elim]
theorem lexemes_induction {motive : List Char → Prop}
    (blank : ∀ cs, splitBlank false cs = (cs, []) → motive cs)
    (lexeme : ∀ cs blanks c rest, splitBlank false cs = (blanks, c :: rest) →
      blanks ++ ((Lexeme.read c rest).chars ++ (Lexeme.read c rest).rest) = cs →
      motive (Lexeme.read c rest).rest → motive cs)
    (cs : List Char) : motive cs := by
  induction length : cs.length using Nat.strongRecOn generalizing cs with
  | ind n ih =>
      have whole := splitBlank_append false cs
      rcases split : splitBlank false cs with ⟨blanks, _ | ⟨c, rest⟩⟩
      · obtain rfl : blanks = cs := by simpa [split] using whole
        exact blank blanks split
      · have shorter := rest_length_lt (congrArg Prod.snd split)
        rw [split, ← Lexeme.read_append c rest] at whole
        exact lexeme cs blanks c rest split whole (ih _ (by omega) _ rfl)

/-! ## Shapes of a text -/

/-- The shapes of the tokens of a text, without the one for its end. -/
def shapes (cs : List Char) : List Shape :=
  ((tokensFrom .first cs).dropLast).map Token.shape

/-- The shapes of a text stand in front of its end, wherever the text begins. -/
theorem exists_tokensFrom (p : Place) (cs : List Char) :
    ∃ ts, tokensFrom p cs = ts ++ [endToken (p.after cs)] ∧ ts.map Token.shape = shapes cs := by
  suffices both : ∀ p q, ∃ ts us, tokensFrom p cs = ts ++ [endToken (p.after cs)] ∧
      tokensFrom q cs = us ++ [endToken (q.after cs)] ∧
      ts.map Token.shape = us.map Token.shape by
    obtain ⟨ts, us, hts, hus, same⟩ := both p .first
    refine ⟨ts, hts, ?_⟩
    rw [same, shapes, hus, List.dropLast_concat]
  intro p q
  induction cs using lexemes_induction generalizing p q with
  | blank cs split =>
      exact ⟨[], [], tokensFrom_of_split p split, tokensFrom_of_split q split, rfl⟩
  | lexeme cs blanks c rest split whole ih =>
      obtain ⟨ts, us, hts, hus, same⟩ := ih
        ((p.after blanks).after (Lexeme.read c rest).chars)
        ((q.after blanks).after (Lexeme.read c rest).chars)
      refine ⟨(Lexeme.read c rest).token (p.after blanks) :: ts,
        (Lexeme.read c rest).token (q.after blanks) :: us, ?_, ?_, by simp [same]⟩
      · rw [tokensFrom_of_split_cons p split, hts, ← Place.after_append, ← Place.after_append,
          whole]
        rfl
      · rw [tokensFrom_of_split_cons q split, hus, ← Place.after_append, ← Place.after_append,
          whole]
        rfl

theorem shapes_eq_of_tokensFrom {p q : Place} {cs : List Char} {ts : List Token}
    (h : tokensFrom p cs = ts ++ [endToken q]) : shapes cs = ts.map Token.shape := by
  obtain ⟨us, hus, same⟩ := exists_tokensFrom p cs
  rw [hus] at h
  rw [← same, List.append_inj_left' h rfl]

@[simp] theorem shapes_nil : shapes [] = [] := by
  rw [shapes, tokensFrom_nil]
  rfl

theorem shapes_blank {c : Char} (cs : List Char) (h : isBlank c = true) :
    shapes (c :: cs) = shapes cs := by
  obtain ⟨ts, hts, same⟩ := exists_tokensFrom (Place.first.after [c]) cs
  rw [← tokensFrom_blank _ cs h] at hts
  rw [shapes_eq_of_tokensFrom hts, same]

theorem shapes_of_split {cs blanks : List Char} (h : splitBlank false cs = (blanks, [])) :
    shapes cs = [] := by
  rw [shapes, tokensFrom_of_split _ h]
  rfl

theorem shapes_of_split_cons {cs blanks rest : List Char} {c : Char}
    (h : splitBlank false cs = (blanks, c :: rest)) :
    shapes cs = (Lexeme.read c rest).shape :: shapes (Lexeme.read c rest).rest := by
  obtain ⟨ts, hts, same⟩ := exists_tokensFrom
    ((Place.first.after blanks).after (Lexeme.read c rest).chars) (Lexeme.read c rest).rest
  have whole := tokensFrom_of_split_cons .first h
  rw [hts, ← List.cons_append] at whole
  rw [shapes_eq_of_tokensFrom whole, List.map_cons, same, Lexeme.token_shape]

/-- A lexeme at the front of a text is its first shape. -/
theorem shapes_cons {c : Char} {cs : List Char} (h : beginsLexeme c cs = true) :
    shapes (c :: cs) = (Lexeme.read c cs).shape :: shapes (Lexeme.read c cs).rest :=
  shapes_of_split_cons (splitBlank_of_beginsLexeme h)

end TwoScript
