import Mathlib.Data.List.TakeWhile
import TwoScript.Proofs.Token.Lossless
import TwoScript.Proofs.Token.Spell

/-!
# Where tokens end

A token is as long as it can be: what follows a word, a number or a symbol does not go on
with it, and a string ends at the first quote that no backslash hides. `Shape.Maximal` says
this for each form of token, and `tokenize_maximal` proves it of every token where it stands.
-/

namespace TwoScript

/-! ## Where tokens stand -/

theorem beginsLexeme_of_split {comment : Bool} {cs gap rest : List Char} {c : Char}
    (h : splitBlank comment cs = (gap, c :: rest)) : beginsLexeme c rest = true := by
  induction cs generalizing comment gap with
  | nil => simp [splitBlank] at h
  | cons d cs ih =>
      rw [splitBlank] at h
      split at h
      · rcases tail : splitBlank (if comment = true then d != '\n' else d == '/') cs with ⟨bs, rs⟩
        rw [tail, Prod.mk.injEq] at h
        obtain ⟨_, rfl⟩ := h
        exact ih tail
      · rename_i lexeme
        rw [Prod.mk.injEq, List.cons.injEq] at h
        obtain ⟨_, rfl, rfl⟩ := h
        simp only [Bool.or_eq_true, not_or, Bool.not_eq_true] at lexeme
        simp [beginsLexeme, lexeme]

/-- Every token but the last one was read at the front of what is left of the text. -/
theorem exists_read_of_mem {p : Place} {cs : List Char} {t : Token} (member : t ∈ tokensFrom p cs)
    (inner : t.kind ≠ .endOfFile) :
    ∃ before c rest, cs = before ++ c :: rest ∧ beginsLexeme c rest = true ∧
      t = (Lexeme.read c rest).token (p.after before) := by
  induction cs using lexemes_induction generalizing p with
  | blank cs split =>
      rw [tokensFrom_of_split p split] at member
      obtain rfl := List.mem_singleton.mp member
      exact (inner rfl).elim
  | lexeme cs gap c rest split whole ih =>
      rw [tokensFrom_of_split_cons p split] at member
      rcases List.mem_cons.mp member with rfl | later
      · rw [Lexeme.read_append] at whole
        exact ⟨gap, c, rest, whole.symm, beginsLexeme_of_split split, rfl⟩
      · obtain ⟨before, d, ds, text, begins, rfl⟩ := ih later
        refine ⟨gap ++ (Lexeme.read c rest).chars ++ before, d, ds, ?_, begins, ?_⟩
        · rw [List.append_assoc, ← text, List.append_assoc, whole]
        · rw [Place.after_append, Place.after_append]

/-! ## Forms of tokens -/

def Kind.isSpelled : Kind → Bool
  | number | string | template | invalid _ | endOfFile => false
  | _ => true

/-- What a token is as far as its end goes. -/
inductive Form where
  | word
  | symbol
  | number
  | string
  | template
  | fault (fault : LexicalFault)
  | finish
deriving DecidableEq, Repr

/-- The form of a token. An operator may be written as a word. -/
def Shape.form (t : Shape) : Form :=
  match t.kind with
  | .number => .number
  | .string => .string
  | .template => .template
  | .invalid fault => .fault fault
  | .endOfFile => .finish
  | _ => if isWord t.text then .word else .symbol

def symbolOf? : List Char → Option Kind
  | [c] => symbol? c
  | [c, d] => symbolPair? c d
  | _ => none

/-- Whether the character behind a text is hidden by a backslash: the text ends with an odd
number of them, so that the last one has no partner. -/
def hidesNext (cs : List Char) : Bool :=
  (cs.reverse.takeWhile (· == '\\')).length % 2 == 1

/-- The token ends where it has to, when the characters `after` follow it. Where a template
ends is left to the scanner of templates. -/
def Shape.Maximal (t : Shape) (after : List Char) : Prop :=
  match t.form with
  | .word => t.kind = (keyword? t.text).getD .identifier ∧
      ∀ c, after.head? = some c → isWordPart c = false
  | .symbol => symbolOf? t.text.toList = some t.kind ∧
      (∀ c, after.head? = some c → symbolOf? (t.text.toList ++ [c]) = none) ∧
      (t.text = "/" → after.head? ≠ some '/')
  | .number => ∃ whole fraction, t.text.toList = whole ++ pointed fraction ∧ whole ≠ [] ∧
      (∀ c ∈ whole ++ fraction, isDigit c = true) ∧
      (∀ c, after.head? = some c → isDigit c = false) ∧
      (fraction = [] → ∀ d ds, after = '.' :: d :: ds → isDigit d = false)
  | .string => ∃ quote body, t.text.toList = quote :: (body ++ [quote]) ∧
      (quote = '"' ∨ quote = '\'') ∧ '\n' ∉ t.text.toList ∧ hidesNext body = false ∧
      ∀ left right, body = left ++ quote :: right → hidesNext left = true
  | .fault .unexpectedCharacter => ∃ c, t.text.toList = [c] ∧ isBlank c = false ∧
      ∀ source, ∀ u ∈ tokenize source, u.text.toList.head? = some c →
        u.kind = .invalid .unexpectedCharacter
  | .fault .unterminatedString => after = [] ∨ after.head? = some '\n'
  | _ => True

theorem Shape.form_of_isSpelled {t : Shape} (spelled : t.kind.isSpelled = true) :
    t.form = if isWord t.text then .word else .symbol := by
  unfold form
  cases kind : t.kind <;> simp_all [Kind.isSpelled]

/-! ## Words -/

theorem spellings_isSpelled (script : Script) :
    ∀ entry ∈ script.spellings, entry.2.isSpelled = true := by
  cases script <;> decide

theorem isSpelled_word (cs : List Char) : (Lexeme.word cs).kind.isSpelled = true := by
  rw [word_kind]
  cases meaning : keyword? (String.ofList (cs.takeWhile isWordPart)) with
  | none => rfl
  | some kind =>
      obtain ⟨⟨script, k⟩, found, rfl⟩ := Option.map_eq_some_iff.mp meaning
      exact spellings_isSpelled script _ (mem_spellings_of_lookup found)

/-- What a run leaves does not go on with it. -/
theorem head?_dropWhile {p : Char → Bool} {cs : List Char} {c : Char}
    (h : (cs.dropWhile p).head? = some c) : p c = false := by
  have stopped := List.head?_dropWhile_not p cs
  rwa [h] at stopped

namespace Lexeme

theorem maximal_word {c : Char} {cs : List Char} (start : isWordStart c = true) :
    (word (c :: cs)).shape.Maximal (word (c :: cs)).rest := by
  have form : (word (c :: cs)).shape.form = .word := by
    rw [Shape.form_of_isSpelled (isSpelled_word _)]
    exact if_pos (isWord_ofList_takeWhile cs start)
  rw [Shape.Maximal, form]
  exact ⟨word_kind _, fun d next => head?_dropWhile next⟩

/-! ## Numbers -/

/-- A number is a run of digits with an optional fraction, and neither goes on behind it. -/
theorem number_extent (cs : List Char) :
    ∃ fraction, (number cs).chars = cs.takeWhile isDigit ++ pointed fraction ∧
      (number cs).literal = some (.number (.ofDigits (cs.takeWhile isDigit) fraction)) ∧
      (∀ c ∈ fraction, isDigit c = true) ∧
      (∀ c, (number cs).rest.head? = some c → isDigit c = false) ∧
      (fraction = [] → ∀ d ds, (number cs).rest = '.' :: d :: ds → isDigit d = false) := by
  unfold number
  split
  · rename_i d rest left
    split
    · rename_i digit
      refine ⟨(d :: rest).takeWhile isDigit, ?_, rfl, fun c member => List.mem_takeWhile_imp member,
        fun c next => head?_dropWhile next, fun none => ?_⟩
      · simp [pointed, digit]
      · simp [digit] at none
    · rename_i digit
      refine ⟨[], by simp [pointed], rfl, by simp, ?_, ?_⟩
      · rintro c ⟨⟩
        decide
      · rintro _ e ds ⟨⟩
        simpa using digit
  · rename_i none
    refine ⟨[], by simp [pointed], rfl, by simp, fun c next => head?_dropWhile next, ?_⟩
    intro _ d ds left
    exact (none d ds left).elim

theorem maximal_number {c : Char} {cs : List Char} (digit : isDigit c = true) :
    (number (c :: cs)).shape.Maximal (number (c :: cs)).rest := by
  obtain ⟨fraction, chars, _, digits, stop, point⟩ := number_extent (c :: cs)
  have form : (number (c :: cs)).shape.form = .number := by
    simp [Shape.form, shape, number_kind]
  rw [Shape.Maximal, form]
  refine ⟨(c :: cs).takeWhile isDigit, fraction, by simp [shape, chars], by simp [digit], ?_, stop,
    point⟩
  intro d member
  rcases List.mem_append.mp member with inside | behind
  · exact List.mem_takeWhile_imp inside
  · exact digits d behind

end Lexeme

/-! ## Strings -/

inductive QuotedBody (quote : Char) : List Char → Prop where
  | nil : QuotedBody quote []
  | plain {c : Char} {cs : List Char} (line : c ≠ '\n') (escape : c ≠ '\\') (mark : c ≠ quote)
      (rest : QuotedBody quote cs) : QuotedBody quote (c :: cs)
  | escaped {c : Char} {cs : List Char} (line : c ≠ '\n') (rest : QuotedBody quote cs) :
      QuotedBody quote ('\\' :: c :: cs)

/-- A string is closed behind its body, or ends where its line does. -/
theorem splitQuoted_extent (quote : Char) (cs : List Char) :
    ((splitQuoted quote cs).closed = true →
      ∃ body, (splitQuoted quote cs).taken = body ++ [quote] ∧ QuotedBody quote body) ∧
    ((splitQuoted quote cs).closed = false →
      (splitQuoted quote cs).rest = [] ∨ (splitQuoted quote cs).rest.head? = some '\n') := by
  fun_induction splitQuoted quote cs with
  | case1 => exact ⟨by simp, by simp⟩
  | case2 cs => exact ⟨by simp, by simp⟩
  | case3 => exact ⟨by simp, by simp⟩
  | case4 => exact ⟨by simp, by simp⟩
  | case5 d ds notLine _ ih =>
      refine ⟨fun closed => ?_, ih.2⟩
      obtain ⟨body, taken, inside⟩ := ih.1 closed
      exact ⟨'\\' :: d :: body, by simp [Cut.push, taken], .escaped notLine inside⟩
  | case6 => exact ⟨fun _ => ⟨[], rfl, .nil⟩, by simp⟩
  | case7 c cs notLine notEscape notQuote ih =>
      refine ⟨fun closed => ?_, ih.2⟩
      obtain ⟨body, taken, inside⟩ := ih.1 closed
      exact ⟨c :: body, by simp [Cut.push, taken], .plain notLine notEscape notQuote inside⟩

theorem hidesNext_concat (cs : List Char) (c : Char) :
    hidesNext (cs ++ [c]) = (c == '\\' && !hidesNext cs) := by
  by_cases slash : c = '\\'
  · have parity : ∀ n : Nat, ((n + 1) % 2 == 1) = !(n % 2 == 1) := by
      intro n
      rcases Nat.mod_two_eq_zero_or_one n with even | odd
      · simp [Nat.add_mod, even]
      · simp [Nat.add_mod, odd]
    simp [hidesNext, slash, parity]
  · simp [hidesNext, slash]

namespace QuotedBody

variable {quote : Char} {body : List Char}

theorem newline_not_mem (h : QuotedBody quote body) : '\n' ∉ body := by
  induction h with
  | nil => simp
  | plain line _ _ _ ih => simp [ih, line.symm]
  | escaped line _ ih => simp [ih, line.symm]

/-- Behind a body nothing is hidden, and inside it every quote is. The backslashes are paired
from the left, so the text `lead` in front may be any that hides nothing. -/
theorem hidesNext_append (h : QuotedBody quote body) (mark : quote ≠ '\\') (lead : List Char)
    (shown : hidesNext lead = false) :
    hidesNext (lead ++ body) = false ∧
      ∀ left right, body = left ++ quote :: right → hidesNext (lead ++ left) = true := by
  induction h generalizing lead with
  | nil => exact ⟨by simpa using shown, by simp⟩
  | @plain c cs _ escape other _ ih =>
      have next : hidesNext (lead ++ [c]) = false := by simp [hidesNext_concat, escape]
      obtain ⟨behind, inside⟩ := ih _ next
      refine ⟨by simpa using behind, fun left right split => ?_⟩
      cases left with
      | nil => exact (other (List.cons.inj split).1).elim
      | cons d left =>
          obtain ⟨rfl, later⟩ := List.cons.inj split
          simpa using inside left right later
  | @escaped c cs _ _ ih =>
      have slash : hidesNext (lead ++ ['\\']) = true := by simp [hidesNext_concat, shown]
      have next : hidesNext (lead ++ ['\\'] ++ [c]) = false := by
        rw [hidesNext_concat, slash]
        simp
      obtain ⟨behind, inside⟩ := ih _ next
      refine ⟨by simpa using behind, fun left right split => ?_⟩
      cases left with
      | nil => exact (mark (List.cons.inj split).1.symm).elim
      | cons d left =>
          obtain ⟨rfl, rest⟩ := List.cons.inj split
          cases left with
          | nil => exact slash
          | cons e left =>
              obtain ⟨rfl, later⟩ := List.cons.inj rest
              simpa using inside left right later

end QuotedBody

namespace Lexeme

theorem maximal_quoted {quote : Char} (mark : quote = '"' ∨ quote = '\'') (cs : List Char) :
    (quoted quote cs).shape.Maximal (quoted quote cs).rest := by
  obtain ⟨whenClosed, whenOpen⟩ := splitQuoted_extent quote cs
  cases closed : (splitQuoted quote cs).closed with
  | true =>
      have form : (quoted quote cs).shape.form = .string := by
        simp [Shape.form, shape, quoted, closed]
      obtain ⟨body, taken, inside⟩ := whenClosed closed
      have plain : quote ≠ '\\' ∧ quote ≠ '\n' := by rcases mark with rfl | rfl <;> decide
      have text : (quoted quote cs).shape.text.toList = quote :: (body ++ [quote]) := by
        simp [shape, quoted, taken]
      have pairs := inside.hidesNext_append plain.1 [] rfl
      rw [Shape.Maximal, form]
      refine ⟨quote, body, text, mark, ?_, pairs.1, pairs.2⟩
      rw [text]
      simp [inside.newline_not_mem, plain.2.symm]
  | false =>
      have form : (quoted quote cs).shape.form = .fault .unterminatedString := by
        simp [Shape.form, shape, quoted, closed]
      rw [Shape.Maximal, form]
      exact whenOpen closed

end Lexeme

/-! ## Symbols -/

theorem isSpelled_of_symbolPair {c d : Char} {kind : Kind} (h : symbolPair? c d = some kind) :
    kind.isSpelled = true := by
  unfold symbolPair? at h
  split at h <;> cases h <;> rfl

theorem isSpelled_of_symbol {c : Char} {kind : Kind} (h : symbol? c = some kind) :
    kind.isSpelled = true := by
  unfold symbol? at h
  split at h <;> cases h <;> rfl

/-- No text that begins with a symbol is a word. -/
theorem isWord_of_symbol {c : Char} (symbol : (symbol? c).isSome = true) (cs : List Char) :
    isWord (String.ofList (c :: cs)) = false := by
  obtain ⟨kind, found⟩ := Option.isSome_iff_exists.mp symbol
  simp [isWord, (start_of_symbol found).2.2.1]

theorem head?_read_chars (c : Char) (cs : List Char) : (Lexeme.read c cs).chars.head? = some c := by
  have whole := Lexeme.read_append c cs
  cases chars : (Lexeme.read c cs).chars with
  | nil => exact (Lexeme.read_chars_ne_nil c cs chars).elim
  | cons d ds =>
      rw [chars] at whole
      rw [(List.cons.inj whole).1]
      rfl

/-- A character that is read as no token at the front of one text begins none in any. -/
theorem kind_of_stray {c : Char} (other : symbol? c = none)
    (read : ∀ cs, Lexeme.read c cs = Lexeme.symbol c cs) (source : String) {u : Token}
    (member : u ∈ tokenize source) (begins : u.text.toList.head? = some c) :
    u.kind = .invalid .unexpectedCharacter := by
  by_cases inner : u.kind = .endOfFile
  · obtain ⟨ts, tokens, same⟩ := exists_tokensFrom .first source.toList
    rw [tokenize, tokens, List.mem_append, List.mem_singleton] at member
    rcases member with before | rfl
    · have lexed := lexed_of_mem_shapes (same ▸ List.mem_map_of_mem before)
      exact (lexed.kind_ne_end inner).elim
    · cases begins
  · obtain ⟨before, d, ds, _, _, rfl⟩ := exists_read_of_mem member inner
    have first := head?_read_chars d ds
    simp only [Lexeme.token, String.toList_ofList] at begins
    obtain rfl := Option.some.inj (first.symm.trans begins)
    have alone : ds.head?.bind (symbolPair? d) = none := by
      refine Option.eq_none_iff_forall_ne_some.mpr fun kind found => ?_
      obtain ⟨e, _, pair⟩ := Option.bind_eq_some_iff.mp found
      simpa [other] using (symbol_of_symbolPair pair).1
    simp [Lexeme.token, read, Lexeme.symbol, alone, other]

namespace Lexeme

theorem maximal_symbol {c : Char} {cs : List Char} (begins : beginsLexeme c cs = true)
    (read : ∀ cs, read c cs = symbol c cs) : (symbol c cs).shape.Maximal (symbol c cs).rest := by
  cases pair : cs.head?.bind (symbolPair? c) with
  | some kind =>
      obtain ⟨d, next, found⟩ := Option.bind_eq_some_iff.mp pair
      obtain ⟨ds, rfl⟩ := List.head?_eq_some_iff.mp next
      have lexeme : symbol c (d :: ds) = ⟨kind, none, [c, d], ds⟩ := by simp [symbol, found]
      have form : (symbol c (d :: ds)).shape.form = .symbol := by
        rw [lexeme, Shape.form_of_isSpelled (isSpelled_of_symbolPair found)]
        exact if_neg (Bool.eq_false_iff.mp (isWord_of_symbol (symbol_of_symbolPair found).1 [d]))
      rw [Shape.Maximal, form, lexeme]
      refine ⟨by simpa [shape, symbolOf?] using found, fun e _ => by simp [shape, symbolOf?], ?_⟩
      intro slash
      have chars := congrArg String.toList slash
      simp [shape] at chars
  | none =>
      cases found : symbol? c with
      | some kind =>
          have lexeme : symbol c cs = ⟨kind, none, [c], cs⟩ := by simp [symbol, pair, found]
          have form : (symbol c cs).shape.form = .symbol := by
            rw [lexeme, Shape.form_of_isSpelled (isSpelled_of_symbol found)]
            exact if_neg (Bool.eq_false_iff.mp (isWord_of_symbol (by rw [found]; rfl) []))
          rw [Shape.Maximal, form, lexeme]
          refine ⟨by simpa [shape, symbolOf?] using found, fun d next => ?_, fun slash next => ?_⟩
          · rw [show cs.head? = some d from next] at pair
            simpa [shape, symbolOf?] using pair
          · have chars := congrArg String.toList slash
            obtain rfl : c = '/' := by simpa [shape] using chars
            rw [beginsLexeme, show cs.head? = some '/' from next] at begins
            cases begins
      | none =>
          have lexeme : symbol c cs = ⟨.invalid .unexpectedCharacter, none, [c], cs⟩ := by
            simp [symbol, pair, found]
          have form : (symbol c cs).shape.form = .fault .unexpectedCharacter := by rw [lexeme]; rfl
          have blank : isBlank c = false := by
            rw [beginsLexeme, Bool.not_eq_true', Bool.or_eq_false_iff] at begins
            exact begins.1
          rw [Shape.Maximal, form, lexeme]
          exact ⟨c, by simp [shape], blank, fun source u member first =>
            kind_of_stray found read source member first⟩

/-- Every lexeme ends where it has to. -/
theorem maximal_read {c : Char} {cs : List Char} (begins : beginsLexeme c cs = true) :
    (read c cs).shape.Maximal (read c cs).rest := by
  by_cases digit : isDigit c = true
  · rw [read, if_pos digit]
    exact maximal_number digit
  by_cases start : isWordStart c = true
  · rw [read, if_neg digit, if_pos start]
    exact maximal_word start
  by_cases mark : c = '"' ∨ c = '\''
  · rw [read, if_neg digit, if_neg start, if_pos mark]
    exact maximal_quoted mark cs
  by_cases tick : c = '`'
  · rw [read, if_neg digit, if_neg start, if_neg mark, if_pos tick]
    cases closed : (splitTemplate .text cs).closed <;>
      simp [Shape.Maximal, Shape.form, shape, template, closed]
  · have symbol : ∀ cs, read c cs = symbol c cs := fun cs => by
      rw [read, if_neg digit, if_neg start, if_neg mark, if_neg tick]
    rw [symbol]
    exact maximal_symbol begins symbol

end Lexeme

/-- Every token of a source ends where it has to in front of what follows it there. -/
theorem tokenize_maximal (source : String) :
    ∀ t ∈ tokenize source, ∃ before after : String, source = before ++ t.text ++ after ∧
      t.span.start = before.utf8ByteSize ∧ t.span.stop = (before ++ t.text).utf8ByteSize ∧
      t.shape.Maximal after.toList := by
  intro t member
  by_cases inner : t.kind = .endOfFile
  · have tiles : Tiles source.toList [] (tokenize source) := tiles_tokensFrom rfl
    obtain ⟨before, after, whole, start, stop, _⟩ := tiles.standsIn t member
    exact ⟨before, after, whole, start, stop, by simp [Shape.Maximal, Shape.form, inner]⟩
  · obtain ⟨before, c, rest, whole, begins, rfl⟩ := exists_read_of_mem member inner
    have lexeme := Lexeme.read_append c rest
    refine ⟨String.ofList before, String.ofList (Lexeme.read c rest).rest, ?_, ?_, ?_, ?_⟩
    · rw [← String.toList_inj, whole]
      simp [Lexeme.token, lexeme]
    · rw [← byteLength_toList]
      simp [Lexeme.token, Place.span, Place.after, Place.first]
    · rw [← byteLength_toList]
      simp [Lexeme.token, Place.span, Place.after, Place.first]
    · rw [String.toList_ofList]
      exact Lexeme.maximal_read begins

/-- A string that holds an escaped quote, behind two symbols that could be cut otherwise. -/
theorem tokenize_maximal_string :
    ∃ t ∈ tokenize "x<<='\\'';", t.kind = .string ∧ t.text = "'\\''" ∧
      ∃ before after : String, "x<<='\\'';" = before ++ t.text ++ after ∧
        t.span.start = before.utf8ByteSize ∧ t.span.stop = (before ++ t.text).utf8ByteSize ∧
        t.shape.Maximal after.toList := by
  have tokens : tokenize "x<<='\\'';" =
      [⟨.identifier, "x", ⟨0, 1, 1⟩, none⟩, ⟨.shiftLeft, "<<", ⟨1, 3, 1⟩, none⟩,
        ⟨.equal, "=", ⟨3, 4, 1⟩, none⟩, ⟨.string, "'\\''", ⟨4, 8, 1⟩, some (.string "'")⟩,
        ⟨.semicolon, ";", ⟨8, 9, 1⟩, none⟩, endToken ⟨9, 1⟩] := by
    decide +kernel
  have member : ⟨.string, "'\\''", ⟨4, 8, 1⟩, some (.string "'")⟩ ∈ tokenize "x<<='\\'';" := by
    rw [tokens]
    simp
  exact ⟨_, member, rfl, rfl, tokenize_maximal _ _ member⟩

end TwoScript
