import TwoScript.Code.Literal
import TwoScript.Proofs.Token.Concat

/-!
# Reading written tokens

`Spells` says that a text is read as certain shapes in front of whatever may follow it.
Texts that are spelled one behind the other are spelled together, so the shapes of
written code can be found piece by piece: blanks, symbols, words, numbers and strings.
-/

namespace TwoScript

/-- The text is read as these shapes, whatever follows it as `follow` allows. -/
def Spells (follow : List Char → Prop) (cs : List Char) (ts : List Shape) : Prop :=
  ∀ rest, follow rest → shapes (cs ++ rest) = ts ++ shapes rest

def Anything (_ : List Char) : Prop := True

/-- A text that does not go on with a word in front of it. -/
def WordEnds (rest : List Char) : Prop :=
  ∀ c, rest.head? = some c → isWordPart c = false

def NumberEnds (rest : List Char) : Prop :=
  WordEnds rest ∧ rest.head? ≠ some '.'

namespace Spells

variable {f g : List Char → Prop} {cs ds : List Char} {ts us : List Shape}

theorem nil : Spells f [] [] := fun _ _ => rfl

theorem append (first : Spells f cs ts) (second : Spells g ds us)
    (fits : ∀ rest, g rest → f (ds ++ rest)) : Spells g (cs ++ ds) (ts ++ us) := by
  intro rest follow
  rw [List.append_assoc, first _ (fits rest follow), second rest follow, List.append_assoc]

theorem append_of_anything (first : Spells Anything cs ts) (second : Spells g ds us) :
    Spells g (cs ++ ds) (ts ++ us) :=
  first.append second fun _ _ => trivial

theorem mono (h : Spells f cs ts) (weaker : ∀ rest, g rest → f rest) : Spells g cs ts :=
  fun rest follow => h rest (weaker rest follow)

theorem of_anything (h : Spells Anything cs ts) : Spells g cs ts :=
  h.mono fun _ _ => trivial

theorem blank {c : Char} (h : isBlank c = true) : Spells Anything [c] [] :=
  fun rest _ => shapes_blank rest h

theorem blanks (h : ∀ c ∈ cs, isBlank c = true) : Spells Anything cs [] := by
  induction cs with
  | nil => exact nil
  | cons c cs ih =>
      exact (blank (h c (by simp))).append_of_anything (ih fun d hd => h d (by simp [hd]))

end Spells

theorem WordEnds.cons {c : Char} (h : isWordPart c = false) (rest : List Char) :
    WordEnds (c :: rest) := by
  rintro d ⟨⟩
  exact h

theorem NumberEnds.nil : NumberEnds [] := by
  simp [NumberEnds, WordEnds]

theorem NumberEnds.cons {c : Char} (h : isWordPart c = false) (point : c ≠ '.')
    (rest : List Char) : NumberEnds (c :: rest) :=
  ⟨WordEnds.cons h rest, by simpa using point⟩

/-! ## Symbols -/

/-- A symbol begins no other kind of lexeme. -/
theorem start_of_symbol {c : Char} {kind : Kind} (h : symbol? c = some kind) :
    isBlank c = false ∧ isDigit c = false ∧ isWordStart c = false ∧
      ¬(c = '"' ∨ c = '\'') ∧ c ≠ '`' := by
  unfold symbol? at h
  split at h <;> first | decide | cases h

theorem read_symbol {c : Char} {kind : Kind} (rest : List Char) (h : symbol? c = some kind) :
    Lexeme.read c rest = Lexeme.symbol c rest := by
  obtain ⟨_, digit, word, quote, tick⟩ := start_of_symbol h
  simp [Lexeme.read, digit, word, quote, tick]

theorem shapes_symbol {c : Char} {kind : Kind} {rest : List Char} (h : symbol? c = some kind)
    (alone : ∀ d, rest.head? = some d → symbolPair? c d = none)
    (comment : ¬(c = '/' ∧ rest.head? = some '/')) :
    shapes (c :: rest) = ⟨kind, String.ofList [c], none⟩ :: shapes rest := by
  have begins : beginsLexeme c rest = true := by
    simpa [beginsLexeme, (start_of_symbol h).1, Decidable.imp_iff_not_or] using comment
  have single : rest.head?.bind (symbolPair? c) = none := by
    cases next : rest.head? with
    | none => rfl
    | some d => exact alone d next
  have symbol : Lexeme.symbol c rest = ⟨kind, none, [c], rest⟩ := by
    simp [Lexeme.symbol, single, h]
  rw [shapes_cons begins, read_symbol rest h, symbol]
  rfl

theorem symbol_of_symbolPair {c d : Char} {kind : Kind} (h : symbolPair? c d = some kind) :
    (symbol? c).isSome = true ∧ ¬(c = '/' ∧ d = '/') := by
  unfold symbolPair? at h
  split at h <;> first | decide | cases h

theorem shapes_symbolPair {c d : Char} {kind : Kind} (rest : List Char)
    (h : symbolPair? c d = some kind) :
    shapes (c :: d :: rest) = ⟨kind, String.ofList [c, d], none⟩ :: shapes rest := by
  obtain ⟨single, comment⟩ := symbol_of_symbolPair h
  obtain ⟨first, found⟩ := Option.isSome_iff_exists.mp single
  have begins : beginsLexeme c (d :: rest) = true := by
    simpa [beginsLexeme, (start_of_symbol found).1, Decidable.imp_iff_not_or] using comment
  have symbol : Lexeme.symbol c (d :: rest) = ⟨kind, none, [c, d], rest⟩ := by
    simp [Lexeme.symbol, h]
  rw [shapes_cons begins, read_symbol _ found, symbol]
  rfl

/-- A symbol that begins no longer one needs no blank behind it. -/
theorem Spells.symbol {c : Char} {kind : Kind} (h : symbol? c = some kind)
    (alone : ∀ d, symbolPair? c d = none) (notSlash : c ≠ '/') :
    Spells Anything [c] [⟨kind, String.ofList [c], none⟩] :=
  fun _ _ => shapes_symbol h (fun d _ => alone d) fun slash => notSlash slash.1

/-! ## Words -/

/-- A run of characters in front of one that ends it. -/
theorem run_append {p : Char → Bool} {cs rest : List Char} (run : ∀ c ∈ cs, p c = true)
    (stop : ∀ c, rest.head? = some c → p c = false) :
    (cs ++ rest).takeWhile p = cs ∧ (cs ++ rest).dropWhile p = rest := by
  have none : rest.takeWhile p = [] ∧ rest.dropWhile p = rest := by
    cases rest with
    | nil => exact ⟨rfl, rfl⟩
    | cons c rest => simp [stop c rfl]
  rw [List.takeWhile_append_of_pos run, List.dropWhile_append_of_pos run, none.1, none.2]
  exact ⟨List.append_nil cs, rfl⟩

/-- A text of digits begins with one run of digits. -/
theorem whole_unique {ws vs fs gs : List Char} (left : ∀ c ∈ ws, isDigit c = true)
    (right : ∀ c ∈ vs, isDigit c = true) (h : ws ++ pointed fs = vs ++ pointed gs) : ws = vs := by
  have stop : ∀ (ds : List Char) c, (pointed ds).head? = some c → isDigit c = false := by
    intro ds c next
    unfold pointed at next
    split at next
    · cases next
    · cases next
      decide
  rw [← (run_append left (stop fs)).1, h, (run_append right (stop gs)).1]

def wordShape (word : String) : Shape :=
  ⟨(Lexeme.wordMeaning word).1, word, (Lexeme.wordMeaning word).2⟩

/-- No character of a class that holds no blank is one. -/
theorem isBlank_of_apart {p : Char → Bool} {c : Char}
    (apart : [' ', '\t', '\r', '\n', '\x0c'].all (!p ·) = true) (h : p c = true) :
    isBlank c = false := by
  simp only [List.all_cons, List.all_nil, Bool.and_true, Bool.and_eq_true,
    Bool.not_eq_true'] at apart
  simp only [isBlank, Bool.or_eq_false_iff, beq_eq_false_iff_ne]
  refine ⟨⟨⟨⟨?_, ?_⟩, ?_⟩, ?_⟩, ?_⟩ <;> rintro rfl <;> simp_all

theorem beginsLexeme_of_apart {p : Char → Bool} {c : Char} (rest : List Char)
    (apart : [' ', '\t', '\r', '\n', '\x0c'].all (!p ·) = true) (slash : p '/' = false)
    (h : p c = true) : beginsLexeme c rest = true := by
  have notSlash : (c == '/') = false := by
    rw [beq_eq_false_iff_ne]
    rintro rfl
    exact absurd h (by simp [slash])
  simp [beginsLexeme, isBlank_of_apart apart h, notSlash]

theorem Spells.word (word : String) (h : isWord word = true) :
    Spells WordEnds word.toList [wordShape word] := by
  intro rest ends
  unfold isWord at h
  cases chars : word.toList with
  | nil => simp [chars] at h
  | cons c cs =>
      simp only [chars, Bool.and_eq_true, List.all_eq_true] at h
      have part : ∀ d ∈ c :: cs, isWordPart d = true := by
        intro d hd
        rcases List.mem_cons.mp hd with rfl | later
        · exact Lexeme.isWordPart_of_isWordStart h.1
        · exact h.2 d later
      have begins := beginsLexeme_of_apart (cs ++ rest) (by decide) (by decide) h.1
      have read : Lexeme.read c (cs ++ rest) = Lexeme.word (c :: cs ++ rest) := by
        simp [Lexeme.read, isDigit_of_isWordStart h.1, h.1]
      obtain ⟨taken, left⟩ := run_append part ends
      have spelled : String.ofList (c :: cs) = word := by rw [← chars, String.ofList_toList]
      rw [List.cons_append, shapes_cons begins, read]
      simp only [Lexeme.word, Lexeme.shape, taken, left, spelled]
      rfl

theorem wordShape_kind_of_isName {name : String} (h : isName name = true) :
    (wordShape name).kind = .identifier := by
  simp only [isName, Bool.and_eq_true, Option.isNone_iff_eq_none] at h
  rw [wordShape, wordMeaning_kind, h.2]
  rfl

/-! ## Numbers -/

theorem isWordPart_of_isDigit {c : Char} (h : isDigit c = true) : isWordPart c = true := by
  simp [isWordPart, h]

theorem NumberEnds.digits {rest : List Char} (h : NumberEnds rest) (c : Char)
    (next : rest.head? = some c) : isDigit c = false := by
  cases digit : isDigit c with
  | false => rfl
  | true => exact absurd (isWordPart_of_isDigit digit) (by simp [h.1 c next])

theorem number_of_digits {whole fraction rest : List Char}
    (digits : ∀ c ∈ whole, isDigit c = true) (fractional : ∀ c ∈ fraction, isDigit c = true)
    (ends : NumberEnds rest) :
    Lexeme.number (whole ++ (pointed fraction ++ rest)) =
      ⟨.number, some (.number (.ofDigits whole fraction)), whole ++ pointed fraction, rest⟩ := by
  have stop := ends.digits
  have point : ∀ c, (pointed fraction ++ rest).head? = some c → isDigit c = false := by
    intro c next
    cases fraction with
    | nil => exact stop c next
    | cons d ds =>
        cases next
        decide
  obtain ⟨taken, left⟩ := run_append digits point
  rw [Lexeme.number, taken, left]
  cases fraction with
  | nil =>
      simp only [pointed, if_true, List.nil_append, List.append_nil]
      split
      · rename_i d more
        exact absurd rfl ends.2
      · rfl
  | cons d ds =>
      obtain ⟨run, behind⟩ := run_append fractional stop
      rw [List.cons_append] at run behind
      simp [pointed, fractional d (by simp), run, behind]

theorem Spells.number {whole fraction : List Char} (some : whole ≠ [])
    (digits : ∀ c ∈ whole, isDigit c = true) (fractional : ∀ c ∈ fraction, isDigit c = true) :
    Spells NumberEnds (whole ++ pointed fraction)
      [⟨.number, String.ofList (whole ++ pointed fraction),
        Option.some (.number (.ofDigits whole fraction))⟩] := by
  intro rest ends
  have lexeme := number_of_digits digits fractional ends
  cases whole with
  | nil => exact absurd rfl some
  | cons c cs =>
      have digit : isDigit c = true := digits c (by simp)
      simp only [List.cons_append, List.append_assoc] at lexeme ⊢
      have begins := beginsLexeme_of_apart (cs ++ (pointed fraction ++ rest)) (by decide)
        (by decide) digit
      rw [shapes_cons begins, Lexeme.read, if_pos digit, lexeme]
      rfl

/-! ## Strings -/

theorem splitQuoted_escapeChar (c : Char) (rest : List Char) :
    splitQuoted '"' (escapeChar c ++ rest) =
      { splitQuoted '"' rest with taken := escapeChar c ++ (splitQuoted '"' rest).taken } := by
  rcases escapeChar_cases c with ⟨d, sign, chars⟩ | ⟨⟨notQuote, notEscape, notLine, _⟩, chars⟩
  · have other : ∀ p ∈ escapeSigns, p.2 ≠ '\n' := by decide
    rw [chars]
    exact splitQuoted_escape rest (other _ sign)
  · rw [chars]
    exact splitQuoted_plain rest notLine notEscape notQuote

theorem splitQuoted_escapeString (cs rest : List Char) :
    splitQuoted '"' (cs.flatMap escapeChar ++ '"' :: rest) =
      ⟨true, cs.flatMap escapeChar ++ ['"'], rest⟩ := by
  induction cs with
  | nil => exact splitQuoted_close rest (by decide) (by decide)
  | cons c cs ih =>
      rw [List.flatMap_cons, List.append_assoc, splitQuoted_escapeChar, ih, List.append_assoc]

theorem unescape_escapeChar (c : Char) (rest : List Char) :
    unescape (escapeChar c ++ rest) = c :: unescape rest := by
  rcases escapeChar_cases c with ⟨d, sign, chars⟩ | ⟨⟨_, notEscape, _⟩, chars⟩
  · have resolved : ∀ p ∈ escapeSigns, resolveEscape p.2 = p.1 := by decide
    rw [chars, List.cons_append, List.cons_append, unescape, resolved _ sign]
    rfl
  · rw [chars, List.cons_append, unescape]
    · rfl
    · rintro _ _ rfl
      exact absurd rfl notEscape

theorem unescape_flatMap (cs : List Char) : unescape (cs.flatMap escapeChar) = cs := by
  induction cs with
  | nil => rfl
  | cons c cs ih => rw [List.flatMap_cons, unescape_escapeChar, ih]

/-- The quotes around an escaped string make one lexeme of it. -/
theorem Lexeme.read_escapeString (cs rest : List Char) :
    Lexeme.read '"' (cs.flatMap escapeChar ++ '"' :: rest) =
      ⟨.string, some (.string (String.ofList cs)), escapeString cs, rest⟩ := by
  rw [Lexeme.read, if_neg (by decide), if_neg (by decide), if_pos (by decide), Lexeme.quoted,
    splitQuoted_escapeString]
  simp [unescape_flatMap, escapeString]

/-- An escaped string is read as the string, whatever follows it. -/
theorem Spells.string (cs : List Char) :
    Spells Anything (escapeString cs)
      [⟨.string, String.ofList (escapeString cs), some (.string (String.ofList cs))⟩] := by
  intro rest _
  have whole : escapeString cs ++ rest = '"' :: (cs.flatMap escapeChar ++ '"' :: rest) := by
    simp [escapeString]
  rw [whole, shapes_cons rfl, Lexeme.read_escapeString]
  rfl

end TwoScript
