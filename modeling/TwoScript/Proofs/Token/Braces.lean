import TwoScript.Proofs.Token.TemplateBody

/-!
# Braces of characters and braces of tokens

Inside a source of a template only quotes and braces are told apart, character by
character. In a text without comments and templates whose tokens are all valid, this
comes to the same as counting the tokens that are braces: `walk_eq_bracesBehind`.
-/

namespace TwoScript

/-! ## Braces among tokens -/

/-- The number of open braces behind a token, or `none` if it closes one that was never
opened. -/
def Kind.bracesBehind (depth : Nat) : Kind → Option Nat
  | .leftBrace => some (depth + 1)
  | .rightBrace => if depth = 0 then none else some (depth - 1)
  | _ => some depth

theorem Kind.bracesBehind_of_ne {kind : Kind} (depth : Nat) (opening : kind ≠ .leftBrace)
    (closing : kind ≠ .rightBrace) : kind.bracesBehind depth = some depth := by
  cases kind <;> first | rfl | contradiction

def bracesBehind (depth : Nat) : List Kind → Option Nat
  | [] => some depth
  | kind :: kinds => (kind.bracesBehind depth).bind fun next => bracesBehind next kinds

theorem bracesBehind_append (depth : Nat) (left right : List Kind) :
    bracesBehind depth (left ++ right) =
      (bracesBehind depth left).bind fun next => bracesBehind next right := by
  induction left generalizing depth with
  | nil => rfl
  | cons kind left ih =>
      rw [List.cons_append, bracesBehind, bracesBehind]
      cases kind.bracesBehind depth with
      | none => rfl
      | some next => exact ih next

/-! ## Texts without comments -/

def uncommented (cs : List Char) : Bool :=
  (splitBlank false cs).1.all isBlank &&
    match h : (splitBlank false cs).2 with
    | [] => true
    | c :: rest =>
      have := rest_length_lt h
      uncommented (Lexeme.read c rest).rest
termination_by cs.length

theorem uncommented_of_split {cs blanks : List Char} (split : splitBlank false cs = (blanks, []))
    (h : uncommented cs = true) : blanks.all isBlank = true := by
  rw [uncommented, Bool.and_eq_true] at h
  have gap := h.1
  rw [split] at gap
  exact gap

theorem uncommented_of_split_cons {cs blanks rest : List Char} {c : Char}
    (split : splitBlank false cs = (blanks, c :: rest)) (h : uncommented cs = true) :
    blanks.all isBlank = true ∧ uncommented (Lexeme.read c rest).rest = true := by
  rw [uncommented, Bool.and_eq_true] at h
  obtain ⟨gap, later⟩ := h
  split at later
  · rename_i ended
    simp [split] at ended
  · rename_i d ds begins
    rw [split] at begins gap
    cases begins
    exact ⟨gap, later⟩

/-! ## Lexemes -/

def Nesting.atDepth (depth : Nat) : Nesting := ⟨depth, none, false⟩

/-- The characters of a lexeme open and close the braces that the lexeme is. -/
def Lexeme.Counted (l : Lexeme) : Prop :=
  ∀ depth, (Nesting.atDepth depth).walk l.chars = (l.kind.bracesBehind depth).map Nesting.atDepth

theorem Lexeme.Counted.of_neutral {l : Lexeme} (neutral : Neutral l.chars)
    (opening : l.kind ≠ .leftBrace) (closing : l.kind ≠ .rightBrace) : l.Counted := by
  intro depth
  rw [Kind.bracesBehind_of_ne depth opening closing]
  exact neutral depth

theorem Neutral.takeWhile {p : Char → Bool} (plain : ∀ {c}, p c = true → isPlainChar c = true)
    (cs : List Char) : Neutral (cs.takeWhile p) := by
  apply Neutral.of_all
  rw [List.all_eq_true]
  exact fun c member => plain (List.all_eq_true.mp List.all_takeWhile c member)

theorem Neutral.of_isBlank {cs : List Char} (h : cs.all isBlank = true) : Neutral cs := by
  apply Neutral.of_all
  rw [List.all_eq_true] at h ⊢
  intro c member
  have blank := h c member
  simp only [isPlainChar, Bool.not_eq_true', Bool.or_eq_false_iff, beq_eq_false_iff_ne]
  refine ⟨⟨⟨?_, ?_⟩, ?_⟩, ?_⟩ <;> rintro rfl <;> exact absurd blank (by decide)

namespace Lexeme

theorem counted_number (cs : List Char) : (number cs).Counted := by
  have digits : ∀ cs : List Char, Neutral (cs.takeWhile isDigit) :=
    Neutral.takeWhile fun digit => isPlainChar_of_isWordPart (isWordPart_of_isDigit digit)
  have neutral : Neutral (number cs).chars := by
    unfold number
    split
    · rename_i d rest _
      split
      · have point : Neutral ['.'] := Neutral.of_all rfl
        exact (digits cs).append (point.append (digits (d :: rest)))
      · exact digits cs
    · exact digits cs
  exact .of_neutral neutral (by simp [number_kind]) (by simp [number_kind])

theorem counted_word (cs : List Char) : (word cs).Counted := by
  have plain : (word cs).kind.isPlain = true := by
    rw [word_kind]
    cases meaning : keyword? (String.ofList (cs.takeWhile isWordPart)) with
    | none => rfl
    | some kind => exact keyword_isPlain meaning
  exact .of_neutral (Neutral.takeWhile isPlainChar_of_isWordPart cs)
    (Kind.ne_of_isPlain plain rfl) (Kind.ne_of_isPlain plain rfl)

end Lexeme

/-- Inside a string that is closed, every character up to the quote is part of it. -/
theorem walk_splitQuoted {quote : Char} {cs : List Char} (depth : Nat)
    (closed : (splitQuoted quote cs).closed = true) :
    (Nesting.mk depth (some quote) false).walk (splitQuoted quote cs).taken =
      some (.atDepth depth) := by
  fun_induction splitQuoted quote cs with
  | case1 => cases closed
  | case2 => cases closed
  | case3 => cases closed
  | case4 => cases closed
  | case5 d ds notLine _ ih =>
      have rest := ih closed
      simpa [Cut.push, Nesting.walk, Nesting.after] using rest
  | case6 cs notLine notEscape =>
      simp [Nesting.walk, Nesting.after, notEscape, Nesting.atDepth]
  | case7 c cs notLine notEscape notQuote ih =>
      have rest := ih closed
      simpa [Cut.push, Nesting.walk, Nesting.after, notEscape, notQuote] using rest

namespace Lexeme

theorem counted_quoted {quote : Char} {cs : List Char} (mark : quote = '"' ∨ quote = '\'')
    (sound : (quoted quote cs).kind.fault? = none) : (quoted quote cs).Counted := by
  have closed : (splitQuoted quote cs).closed = true := by
    cases closed : (splitQuoted quote cs).closed with
    | true => rfl
    | false => simp [quoted, closed, Kind.fault?] at sound
  have neutral : Neutral (quoted quote cs).chars := by
    intro depth
    have inside := walk_splitQuoted depth closed
    simpa [quoted, Nesting.walk, Nesting.after, mark, Nesting.atDepth] using inside
  exact .of_neutral neutral (by simp [quoted, closed]) (by simp [quoted, closed])

theorem walk_symbol {c : Char} {kind : Kind} (h : symbol? c = some kind) (depth : Nat) :
    (Nesting.atDepth depth).walk [c] = (kind.bracesBehind depth).map Nesting.atDepth := by
  by_cases closing : c = '}'
  · subst closing
    cases h
    by_cases outermost : depth = 0
    · simp [Nesting.walk, Nesting.after, Nesting.atDepth, Kind.bracesBehind, outermost]
    · simp [Nesting.walk, Nesting.after, Nesting.atDepth, Kind.bracesBehind, outermost]
  · unfold symbol? at h
    split at h <;> cases h <;> first | rfl | contradiction

theorem counted_symbol {c : Char} {cs : List Char}
    (sound : (symbol c cs).kind.fault? = none) : (symbol c cs).Counted := by
  unfold symbol at sound ⊢
  split
  · rename_i kind pair
    obtain ⟨d, next, found⟩ := Option.bind_eq_some_iff.mp pair
    obtain ⟨rest, rfl⟩ : ∃ rest, cs = d :: rest := by
      cases cs with
      | nil => cases next
      | cons e es =>
          cases next
          exact ⟨es, rfl⟩
    unfold symbolPair? at found
    split at found <;> cases found <;> exact fun depth => rfl
  · rename_i single
    rw [single] at sound
    cases found : symbol? c with
    | none =>
        rw [found] at sound
        cases sound
    | some kind => exact walk_symbol found

/-- The lexeme at the front of a text counts its braces, unless it is a template. -/
theorem counted_read {c : Char} {cs : List Char} (sound : (read c cs).kind.fault? = none)
    (other : (read c cs).kind ≠ .template) : (read c cs).Counted := by
  cases manner c with
  | number _ lexeme =>
      rw [lexeme]
      exact counted_number _
  | word _ lexeme =>
      rw [lexeme]
      exact counted_word _
  | quoted mark lexeme =>
      rw [lexeme] at sound ⊢
      exact counted_quoted mark sound
  | template _ lexeme =>
      rw [lexeme] at sound other
      simp only [template] at sound other
      split at sound
      · rename_i closed
        exact absurd (if_pos closed) other
      · cases sound
  | symbol lexeme =>
      rw [lexeme] at sound ⊢
      exact counted_symbol sound

end Lexeme

/-! ## Texts -/

/-- A text without comments, faults and templates closes exactly the braces that its tokens
close. -/
theorem walk_eq_bracesBehind {cs : List Char} (plain : uncommented cs = true)
    (sound : ∀ t ∈ shapes cs, t.kind.fault? = none ∧ t.kind ≠ .template) (depth : Nat) :
    (Nesting.atDepth depth).walk cs =
      (bracesBehind depth ((shapes cs).map Shape.kind)).map Nesting.atDepth := by
  induction cs using lexemes_induction generalizing depth with
  | blank cs split =>
      have neutral := Neutral.of_isBlank (uncommented_of_split split plain)
      rw [shapes_of_split split]
      exact neutral depth
  | lexeme cs blanks c rest split text ih =>
      obtain ⟨gap, later⟩ := uncommented_of_split_cons split plain
      rw [shapes_of_split_cons split] at sound ⊢
      obtain ⟨valid, other⟩ := sound _ List.mem_cons_self
      have first := Lexeme.counted_read valid other depth
      have blank : (Nesting.atDepth depth).walk blanks = some (.atDepth depth) :=
        Neutral.of_isBlank gap depth
      rw [← text, Nesting.walk_append, blank, Option.bind_some, Nesting.walk_append, first,
        List.map_cons, bracesBehind]
      cases next : (Lexeme.read c rest).kind.bracesBehind depth with
      | none => simp [Lexeme.shape, next]
      | some next' =>
          have more := ih later (fun t member => sound t (List.mem_cons_of_mem _ member)) next'
          simp [Lexeme.shape, next, more]

end TwoScript
