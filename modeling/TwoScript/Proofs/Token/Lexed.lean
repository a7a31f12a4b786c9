import TwoScript.Proofs.Token.Shape

/-!
# What the tokenizer promises about a token

Tokens of a text are more than shapes: a name is a word outside the tables of
keywords, and the value of a number was read from its digits.
-/

namespace TwoScript

def isWord (s : String) : Bool :=
  match s.toList with
  | [] => false
  | c :: cs => isWordStart c && cs.all isWordPart

/-- Whether a text is a word that is no keyword. -/
def isName (s : String) : Bool :=
  isWord s && (keyword? s).isNone

def Number.Written (x : Number) : Prop :=
  ∃ whole fraction, x = .ofDigits whole fraction

def pointed (fraction : List Char) : List Char :=
  if fraction = [] then [] else '.' :: fraction

/-- A kind of token behind which a statement goes on at the same depth. -/
def Kind.isPlain : Kind → Bool
  | leftBrace | rightBrace | semicolon | endOfFile => false
  | _ => true

theorem Kind.ne_of_isPlain {kind other : Kind} (plain : kind.isPlain = true)
    (notPlain : other.isPlain = false) : kind ≠ other := by
  rintro rfl
  rw [plain] at notPlain
  cases notPlain

/-- A shape that stands at the front of some text. -/
def Shape.Lexed (t : Shape) : Prop :=
  ∃ c cs, t = (Lexeme.read c cs).shape

/-! ## Words -/

theorem mem_spellings_of_lookup {word : String} {script : Script} {kind : Kind}
    (h : lookup? word = some (script, kind)) : (word, kind) ∈ script.spellings := by
  obtain ⟨s, _, found⟩ := List.exists_of_findSome?_eq_some h
  obtain ⟨k, hk, pair⟩ := Option.map_eq_some_iff.mp found
  cases pair
  obtain ⟨l₁, l₂, split, _⟩ := List.lookup_eq_some_iff.mp hk
  rw [split]
  simp

/-- Every keyword is a word and says something other than a name, a brace, a semicolon, a
fault or the end of the input. -/
theorem spellings_sound (script : Script) :
    ∀ entry ∈ script.spellings, isWord entry.1 = true ∧ entry.2.isPlain = true ∧
      entry.2 ≠ .identifier ∧ entry.2.fault? = none := by
  cases script <;> decide

theorem isWord_of_keyword {word : String} (h : (keyword? word).isSome = true) :
    isWord word = true := by
  obtain ⟨kind, hk⟩ := Option.isSome_iff_exists.mp h
  obtain ⟨⟨script, k⟩, found, _⟩ := Option.map_eq_some_iff.mp hk
  exact (spellings_sound script _ (mem_spellings_of_lookup found)).1

theorem keyword_isPlain {word : String} {kind : Kind} (h : keyword? word = some kind) :
    kind.isPlain = true := by
  obtain ⟨⟨script, k⟩, found, rfl⟩ := Option.map_eq_some_iff.mp h
  exact (spellings_sound script _ (mem_spellings_of_lookup found)).2.1

theorem keyword_ne {word : String} {kind : Kind} (h : keyword? word = some kind) :
    kind ≠ .endOfFile ∧ kind ≠ .identifier := by
  obtain ⟨⟨script, k⟩, found, rfl⟩ := Option.map_eq_some_iff.mp h
  refine ⟨fun ends => ?_, (spellings_sound script _ (mem_spellings_of_lookup found)).2.2.1⟩
  have plain := keyword_isPlain h
  rw [ends] at plain
  cases plain

theorem keyword_fault {word : String} {kind : Kind} (h : keyword? word = some kind) :
    kind.fault? = none := by
  obtain ⟨⟨script, k⟩, found, rfl⟩ := Option.map_eq_some_iff.mp h
  exact (spellings_sound script _ (mem_spellings_of_lookup found)).2.2.2

theorem isWord_ofList_takeWhile {c : Char} (cs : List Char) (h : isWordStart c = true) :
    isWord (String.ofList ((c :: cs).takeWhile isWordPart)) = true := by
  rw [isWord, String.toList_ofList, List.takeWhile_cons,
    if_pos (Lexeme.isWordPart_of_isWordStart h)]
  simp [h]

theorem wordMeaning_kind (word : String) :
    (Lexeme.wordMeaning word).1 = (keyword? word).getD .identifier := by
  unfold Lexeme.wordMeaning
  split <;> simp_all

theorem wordMeaning_literal (word : String) (x : Number) :
    (Lexeme.wordMeaning word).2 ≠ some (.number x) := by
  unfold Lexeme.wordMeaning
  split <;> simp

/-! ## Lexemes -/

def Kind.unsymbolic : List Kind :=
  [.endOfFile, .identifier, .nullWord, .template, .invalid .unterminatedTemplate]

theorem symbolPair_not_mem {c d : Char} {kind : Kind} (h : symbolPair? c d = some kind) :
    kind ∉ Kind.unsymbolic := by
  unfold symbolPair? at h
  split at h <;> cases h <;> decide

theorem symbol_not_mem {c : Char} {kind : Kind} (h : symbol? c = some kind) :
    kind ∉ Kind.unsymbolic := by
  unfold symbol? at h
  split at h <;> cases h <;> decide

theorem symbol_kind_ne (c : Char) (cs : List Char) {kind : Kind}
    (other : kind ∈ Kind.unsymbolic) : (Lexeme.symbol c cs).kind ≠ kind := by
  suffices outside : (Lexeme.symbol c cs).kind ∉ Kind.unsymbolic from
    fun same => outside (same ▸ other)
  unfold Lexeme.symbol
  split
  · rename_i kind pair
    obtain ⟨d, _, found⟩ := Option.bind_eq_some_iff.mp pair
    exact symbolPair_not_mem found
  · cases single : symbol? c with
    | none => simp [Kind.unsymbolic]
    | some kind => exact symbol_not_mem single

theorem symbol_literal (c : Char) (cs : List Char) : (Lexeme.symbol c cs).literal = none := by
  unfold Lexeme.symbol
  split <;> rfl

theorem number_kind (cs : List Char) : (Lexeme.number cs).kind = .number := by
  unfold Lexeme.number
  split
  · split <;> rfl
  · rfl

theorem number_literal (cs : List Char) :
    ∃ x, (Lexeme.number cs).literal = some (.number x) ∧ x.Written := by
  unfold Lexeme.number
  split
  · split
    · exact ⟨_, rfl, _, _, rfl⟩
    · exact ⟨_, rfl, _, _, rfl⟩
  · exact ⟨_, rfl, _, _, rfl⟩

theorem word_kind (cs : List Char) :
    (Lexeme.word cs).kind =
      (keyword? (String.ofList (cs.takeWhile isWordPart))).getD .identifier :=
  wordMeaning_kind _

theorem quoted_kind (quote : Char) (cs : List Char) :
    (Lexeme.quoted quote cs).kind ≠ .endOfFile ∧
      (Lexeme.quoted quote cs).kind ≠ .identifier := by
  simp only [Lexeme.quoted]
  split <;> simp

theorem template_kind (cs : List Char) :
    (Lexeme.template cs).kind ≠ .endOfFile ∧ (Lexeme.template cs).kind ≠ .identifier := by
  simp only [Lexeme.template]
  split <;> simp

theorem read_kind_ne_end (c : Char) (cs : List Char) :
    (Lexeme.read c cs).kind ≠ .endOfFile := by
  cases Lexeme.manner c with
  | number _ lexeme => simp [lexeme, number_kind]
  | word _ lexeme =>
      rw [lexeme, word_kind]
      cases meaning : keyword? (String.ofList ((c :: cs).takeWhile isWordPart)) with
      | none => simp
      | some kind => exact (keyword_ne meaning).1
  | quoted _ lexeme =>
      rw [lexeme]
      exact (quoted_kind c cs).1
  | template _ lexeme =>
      rw [lexeme]
      exact (template_kind cs).1
  | symbol lexeme =>
      rw [lexeme]
      exact symbol_kind_ne c cs (by decide)

/-- A name is a word outside the tables. -/
theorem isName_of_read {c : Char} {cs : List Char}
    (h : (Lexeme.read c cs).kind = .identifier) :
    isName (String.ofList (Lexeme.read c cs).chars) = true := by
  cases Lexeme.manner c with
  | number _ lexeme => simp [lexeme, number_kind] at h
  | word start lexeme =>
      rw [lexeme, word_kind] at h
      have none : keyword? (String.ofList ((c :: cs).takeWhile isWordPart)) = none := by
        cases meaning : keyword? (String.ofList ((c :: cs).takeWhile isWordPart)) with
        | none => rfl
        | some kind =>
            rw [meaning] at h
            exact ((keyword_ne meaning).2 h).elim
      rw [lexeme, isName, Lexeme.word, isWord_ofList_takeWhile cs start, none]
      rfl
  | quoted _ lexeme => exact ((quoted_kind c cs).2 (lexeme cs ▸ h)).elim
  | template _ lexeme => exact ((template_kind cs).2 (lexeme cs ▸ h)).elim
  | symbol lexeme => exact (symbol_kind_ne c cs (by decide) (lexeme cs ▸ h)).elim

theorem written_of_read {c : Char} {cs : List Char} {x : Number}
    (h : (Lexeme.read c cs).literal = some (.number x)) : x.Written := by
  cases Lexeme.manner c with
  | number _ lexeme =>
      obtain ⟨y, literal, written⟩ := number_literal (c :: cs)
      rw [lexeme, literal] at h
      cases h
      exact written
  | word _ lexeme =>
      rw [lexeme] at h
      exact (wordMeaning_literal _ x h).elim
  | quoted _ lexeme =>
      simp only [lexeme, Lexeme.quoted] at h
      split at h <;> cases h
  | template _ lexeme =>
      simp only [lexeme, Lexeme.template] at h
      split at h <;> cases h
  | symbol lexeme =>
      rw [lexeme, symbol_literal] at h
      cases h

theorem word_fault (cs : List Char) :
    (Lexeme.word cs).kind ≠ .invalid .unterminatedTemplate := by
  rw [word_kind]
  cases meaning : keyword? (String.ofList (cs.takeWhile isWordPart)) with
  | none => simp
  | some kind =>
      have sound := keyword_fault meaning
      intro fault
      rw [Option.getD_some] at fault
      rw [fault] at sound
      cases sound

/-- Only a template can be one that is left open. -/
theorem read_fault {c : Char} {cs : List Char}
    (h : (Lexeme.read c cs).kind = .invalid .unterminatedTemplate) :
    Lexeme.read c cs = Lexeme.template cs := by
  cases Lexeme.manner c with
  | number _ lexeme => simp [lexeme, number_kind] at h
  | word _ lexeme => exact (word_fault _ (lexeme cs ▸ h)).elim
  | quoted _ lexeme =>
      simp only [lexeme, Lexeme.quoted] at h
      split at h <;> cases h
  | template _ lexeme => exact lexeme cs
  | symbol lexeme => exact (symbol_kind_ne c cs (by decide) (lexeme cs ▸ h)).elim

theorem isWordStart_of_isWord {c : Char} {cs : List Char}
    (h : isWord (String.ofList (c :: cs)) = true) : isWordStart c = true := by
  simp only [isWord, String.toList_ofList, Bool.and_eq_true] at h
  exact h.1

/-- Every character of a word can continue one. -/
theorem isWordPart_of_mem {s : String} (h : isWord s = true) {c : Char} (hc : c ∈ s.toList) :
    isWordPart c = true := by
  unfold isWord at h
  cases chars : s.toList with
  | nil => simp [chars] at hc
  | cons d ds =>
      simp only [chars, Bool.and_eq_true, List.all_eq_true] at h hc
      rcases List.mem_cons.mp hc with rfl | later
      · exact Lexeme.isWordPart_of_isWordStart h.1
      · exact h.2 c later

theorem isDigit_of_isWordStart {c : Char} (h : isWordStart c = true) : isDigit c = false := by
  simp only [isWordStart, isDevanagariLetter, isDigit, Bool.or_eq_true, Bool.and_eq_true,
    decide_eq_true_eq, beq_iff_eq, Bool.and_eq_false_iff, decide_eq_false_iff_not, Char.le_def,
    UInt32.le_iff_toNat_le] at h ⊢
  rcases h with ((h | h) | rfl) | (h | h)
  · right
    have low : ('a'.val).toNat = 97 := rfl
    have high : ('9'.val).toNat = 57 := rfl
    omega
  · right
    have low : ('A'.val).toNat = 65 := rfl
    have high : ('9'.val).toNat = 57 := rfl
    omega
  · decide
  · right
    have low : ('\u0900'.val).toNat = 2304 := rfl
    have high : ('9'.val).toNat = 57 := rfl
    omega
  · right
    have low : ('\u0970'.val).toNat = 2416 := rfl
    have high : ('9'.val).toNat = 57 := rfl
    omega

/-- A word from the tables is read as the keyword it is. -/
theorem read_kind_of_keyword {c : Char} {cs : List Char} {kind : Kind}
    (h : keyword? (String.ofList (Lexeme.read c cs).chars) = some kind) :
    (Lexeme.read c cs).kind = kind := by
  have word := isWord_of_keyword (by rw [h]; rfl)
  have start : isWordStart c = true := by
    have whole := Lexeme.read_append c cs
    cases chars : (Lexeme.read c cs).chars with
    | nil => exact (Lexeme.read_chars_ne_nil c cs chars).elim
    | cons d ds =>
        rw [chars] at whole word
        rw [← (List.cons.inj whole).1]
        exact isWordStart_of_isWord word
  have read : Lexeme.read c cs = Lexeme.word (c :: cs) := by
    simp [Lexeme.read, isDigit_of_isWordStart start, start]
  rw [read] at h ⊢
  rw [word_kind]
  have chars : (Lexeme.word (c :: cs)).chars = (c :: cs).takeWhile isWordPart := rfl
  rw [← chars, h]
  rfl

/-! ## Shapes of a text -/

namespace Shape.Lexed

theorem isPlain_of_keyword {t : Shape} (h : t.Lexed) (word : (keyword? t.text).isSome = true) :
    t.kind.isPlain = true := by
  obtain ⟨c, cs, rfl⟩ := h
  obtain ⟨kind, found⟩ := Option.isSome_iff_exists.mp word
  have same : (Lexeme.read c cs).shape.kind = kind := read_kind_of_keyword found
  rw [same]
  exact keyword_isPlain found

theorem kind_ne_end {t : Shape} (h : t.Lexed) : t.kind ≠ .endOfFile := by
  obtain ⟨c, cs, rfl⟩ := h
  exact read_kind_ne_end c cs

theorem isName_text {t : Shape} (h : t.Lexed) (name : t.kind = .identifier) :
    isName t.text = true := by
  obtain ⟨c, cs, rfl⟩ := h
  exact isName_of_read name

theorem written {t : Shape} {x : Number} (h : t.Lexed) (number : t.literal = some (.number x)) :
    x.Written := by
  obtain ⟨c, cs, rfl⟩ := h
  exact written_of_read number

end Shape.Lexed

theorem isWord_of_isName {s : String} (h : isName s = true) : isWord s = true := by
  simp only [isName, Bool.and_eq_true] at h
  exact h.1

/-- Every shape of a text is one of a lexeme. -/
theorem lexed_of_mem_shapes {cs : List Char} {t : Shape} (h : t ∈ shapes cs) : t.Lexed := by
  induction cs using lexemes_induction with
  | blank cs split =>
      rw [shapes_of_split split] at h
      cases h
  | lexeme cs blanks c rest split _ ih =>
      rw [shapes_of_split_cons split] at h
      rcases List.mem_cons.mp h with rfl | later
      · exact ⟨c, rest, rfl⟩
      · exact ih later

end TwoScript
