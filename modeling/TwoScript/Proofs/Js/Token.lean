import TwoScript.Number.Decimal
import TwoScript.Proofs.Js.Scan

/-!
# Tokens of JavaScript

The tokens of JavaScript expressions, by its own lexical rules: the longest punctuator is
taken, a dollar sign belongs to a word, no digit stands behind a leading zero and no word
directly behind a number. A block between braces and a template are one token each, with
their text. `Lexes` says that a text has certain tokens in front of whatever may follow it.
-/

namespace TwoScript

namespace Js

/-- A token of JavaScript. What no rule allows is `invalid`. -/
inductive Token where
  | word (text : String)
  | number (value : Number)
  | string (value : String)
  | template (text : String)
  | block (text : String)
  | mark (text : String)
  | invalid
deriving DecidableEq, Repr

/-- The punctuators other than braces, a longer one in front of those it begins with. The
beginnings of comments are among them, and no rule of the reader takes them. -/
def marks : List String :=
  [">>>=", "...", "===", "!==", "**=", "<<=", ">>=", ">>>", "&&=", "||=", "??=",
   "=>", "==", "!=", "<=", ">=", "&&", "||", "??", "?.", "++", "--", "+=", "-=", "*=", "/=",
   "%=", "&=", "|=", "^=", "<<", ">>", "**", "//", "/*",
   "(", ")", "[", "]", ",", ";", "<", ">", "+", "-", "*", "/", "%", "&", "|", "^", "!", "~",
   "?", ":", "=", "."]

def beginsWord (c : Char) : Bool :=
  isWordStart c || c == '$'

def continuesWord (c : Char) : Bool :=
  isWordPart c || c == '$'

def escaped? (c : Char) : Option Char :=
  match c with
  | 'n' => some '\n'
  | 'r' => some '\r'
  | 't' => some '\t'
  | 'b' => some '\x08'
  | 'f' => some '\x0c'
  | 'v' => some '\x0b'
  | '"' | '\'' | '\\' => some c
  | _ => none

/-- The value of a string behind its quote, and its length up to and with the closing one.
`escaping` says that a backslash was read. -/
def unquote (escaping : Bool) : List Char → Option (List Char × Nat)
  | [] => none
  | c :: cs =>
    if escaping then
      (escaped? c).bind fun d => (unquote false cs).map fun r => (d :: r.1, r.2 + 1)
    else if c = '"' then some ([], 1)
    else if c = '\\' then (unquote true cs).map fun r => (r.1, r.2 + 1)
    else if c = '\n' ∨ c = '\r' then none
    else (unquote false cs).map fun r => (c :: r.1, r.2 + 1)

def numberToken (cs : List Char) : Token × Nat :=
  let whole := cs.takeWhile isDigit
  let behind := cs.dropWhile isDigit
  let fraction := if behind.head? = some '.' then behind.tail.takeWhile isDigit else []
  let length := whole.length + if behind.head? = some '.' then 1 + fraction.length else 0
  if whole.head? = some '0' ∧ whole.tail ≠ [] ∨ (cs.drop length).head?.any continuesWord then
    (.invalid, length)
  else (.number (.ofDigits whole fraction), length)

/-- The token that begins with a character, and how much of the text behind the character
belongs to it. -/
def token (c : Char) (cs : List Char) : Token × Nat :=
  if isDigit c then
    let read := numberToken (c :: cs)
    (read.1, read.2 - 1)
  else if beginsWord c then
    let more := cs.takeWhile continuesWord
    (.word (String.ofList (c :: more)), more.length)
  else if c = '"' then
    match unquote false cs with
    | some (value, length) => (.string (String.ofList value), length)
    | none => (.invalid, 0)
  else if c = '`' then
    match Scanner.extent ⟨[.template], none⟩ cs with
    | some length => (.template (String.ofList (c :: cs.take length)), length)
    | none => (.invalid, 0)
  else if c = '{' then
    match Scanner.extent ⟨[.bracket '}'], none⟩ cs with
    | some length => (.block (String.ofList (c :: cs.take length)), length)
    | none => (.invalid, 0)
  else
    match marks.find? fun m => m.toList.isPrefixOf (c :: cs) with
    | some m => (.mark m, m.toList.length - 1)
    | none => (.invalid, 0)

def tokens : List Char → List Token
  | [] => []
  | c :: cs =>
    if isBlank c then tokens cs else (token c cs).1 :: tokens (cs.drop (token c cs).2)
termination_by cs => cs.length
decreasing_by
  · simp
  · rw [List.length_drop, List.length_cons]
    omega

/-- The text has these tokens, whatever follows it as `follow` allows. -/
def Lexes (follow : List Char → Prop) (cs : List Char) (ts : List Token) : Prop :=
  ∀ rest, follow rest → tokens (cs ++ rest) = ts ++ tokens rest

def WordStops (rest : List Char) : Prop :=
  ∀ c, rest.head? = some c → continuesWord c = false

def NumberStops (rest : List Char) : Prop :=
  WordStops rest ∧ rest.head? ≠ some '.'

theorem WordStops.cons {c : Char} (h : continuesWord c = false) (rest : List Char) :
    WordStops (c :: rest) := by
  rintro d ⟨⟩
  exact h

theorem NumberStops.nil : NumberStops [] := by
  simp [NumberStops, WordStops]

theorem NumberStops.cons {c : Char} (h : continuesWord c = false) (point : c ≠ '.')
    (rest : List Char) : NumberStops (c :: rest) :=
  ⟨WordStops.cons h rest, by simpa using point⟩

namespace Lexes

variable {f g : List Char → Prop} {cs ds : List Char} {ts us : List Token}

theorem nil : Lexes f [] [] := fun _ _ => rfl

theorem append (first : Lexes f cs ts) (second : Lexes g ds us)
    (fits : ∀ rest, g rest → f (ds ++ rest)) : Lexes g (cs ++ ds) (ts ++ us) := by
  intro rest follow
  rw [List.append_assoc, first _ (fits rest follow), second rest follow, List.append_assoc]

theorem append_of_anything (first : Lexes Anything cs ts) (second : Lexes g ds us) :
    Lexes g (cs ++ ds) (ts ++ us) :=
  first.append second fun _ _ => trivial

theorem mono (h : Lexes f cs ts) (weaker : ∀ rest, g rest → f rest) : Lexes g cs ts :=
  fun rest follow => h rest (weaker rest follow)

theorem of_anything (h : Lexes Anything cs ts) : Lexes g cs ts :=
  h.mono fun _ _ => trivial

theorem blank {c : Char} (h : isBlank c = true) : Lexes Anything [c] [] := by
  intro rest _
  rw [List.singleton_append, tokens, if_pos h]
  rfl

/-- One token, that takes the whole text. -/
theorem of_token {c : Char} {t : Token} (notBlank : isBlank c = false)
    (h : ∀ rest, f rest → token c (cs ++ rest) = (t, cs.length)) : Lexes f (c :: cs) [t] := by
  intro rest follow
  rw [List.cons_append, tokens, if_neg (by simp [notBlank]), h rest follow, List.drop_left]
  rfl

end Lexes

/-! ## Words and numbers -/

theorem isDigit_of_beginsWord {c : Char} (h : beginsWord c = true) : isDigit c = false := by
  simp only [beginsWord, Bool.or_eq_true, beq_iff_eq] at h
  rcases h with start | rfl
  · exact isDigit_of_isWordStart start
  · decide

def isJsWord (s : String) : Bool :=
  match s.toList with
  | [] => false
  | c :: cs => beginsWord c && cs.all continuesWord

theorem Lexes.word {s : String} (h : isJsWord s = true) : Lexes WordStops s.toList [.word s] := by
  unfold isJsWord at h
  cases chars : s.toList with
  | nil => simp [chars] at h
  | cons c cs =>
      simp only [chars, Bool.and_eq_true, List.all_eq_true] at h
      refine .of_token (isBlank_of_apart (by decide) h.1) fun rest stops => ?_
      have spelled : String.ofList (c :: cs) = s := by rw [← chars, String.ofList_toList]
      rw [token, if_neg (by simp [isDigit_of_beginsWord h.1]), if_pos h.1,
        (run_append h.2 stops).1]
      simp only [spelled]

theorem isJsWord_of_isWord {s : String} (h : isWord s = true) : isJsWord s = true := by
  unfold isWord at h
  unfold isJsWord
  cases chars : s.toList with
  | nil => simp [chars] at h
  | cons c cs =>
      simp only [chars, Bool.and_eq_true, List.all_eq_true] at h
      simp only [Bool.and_eq_true, List.all_eq_true]
      exact ⟨by simp [beginsWord, h.1], fun d hd => by simp [continuesWord, h.2 d hd]⟩

theorem isDigit_of_continuesWord {c : Char} (h : continuesWord c = false) : isDigit c = false := by
  cases digit : isDigit c with
  | false => rfl
  | true => simp [continuesWord, isWordPart_of_isDigit digit] at h

theorem numberToken_append {whole fraction rest : List Char}
    (digits : ∀ c ∈ whole, isDigit c = true) (fractional : ∀ c ∈ fraction, isDigit c = true)
    (leading : ¬(whole.head? = some '0' ∧ whole.tail ≠ [])) (stops : NumberStops rest) :
    numberToken (whole ++ (pointed fraction ++ rest)) =
      (.number (.ofDigits whole fraction), (whole ++ pointed fraction).length) := by
  have ends : ∀ c, rest.head? = some c → isDigit c = false :=
    fun c next => isDigit_of_continuesWord (stops.1 c next)
  have behind : (rest.head?.any continuesWord) = false := by
    cases next : rest.head? with
    | none => rfl
    | some c => simpa using stops.1 c next
  have point : ∀ c, (pointed fraction ++ rest).head? = some c → isDigit c = false := by
    intro c next
    cases fraction with
    | nil => exact ends c next
    | cons d ds =>
        cases next
        decide
  obtain ⟨taken, left⟩ := run_append digits point
  rw [numberToken, taken, left]
  cases fraction with
  | nil =>
      have none : (pointed [] ++ rest).head? ≠ some '.' := stops.2
      simp only [if_neg none, Nat.add_zero]
      rw [List.drop_left, if_neg]
      · simp [pointed]
      · rw [not_or]
        exact ⟨leading, by simpa [pointed] using behind⟩
  | cons d ds =>
      have dot : (pointed (d :: ds) ++ rest).head? = some '.' := rfl
      have tail : (pointed (d :: ds) ++ rest).tail = (d :: ds) ++ rest := rfl
      have length : whole.length + (1 + (d :: ds).length) =
          (whole ++ pointed (d :: ds)).length := by
        simp [pointed]
        omega
      simp only [if_pos dot, tail, (run_append fractional ends).1, length]
      rw [← List.append_assoc, List.drop_left, if_neg]
      rw [not_or]
      exact ⟨leading, by simpa using behind⟩

theorem Lexes.number {whole fraction : List Char} (some : whole ≠ [])
    (digits : ∀ c ∈ whole, isDigit c = true) (fractional : ∀ c ∈ fraction, isDigit c = true)
    (leading : ¬(whole.head? = Option.some '0' ∧ whole.tail ≠ [])) :
    Lexes NumberStops (whole ++ pointed fraction) [.number (.ofDigits whole fraction)] := by
  cases whole with
  | nil => exact absurd rfl some
  | cons c cs =>
      have digit : isDigit c = true := digits c (by simp)
      rw [List.cons_append]
      refine .of_token (isBlank_of_apart (by decide) digit) fun rest stops => ?_
      have read := numberToken_append digits fractional leading stops
      rw [List.cons_append] at read
      rw [token, if_pos digit, List.append_assoc, read]
      simp

/-! ## Strings, templates and blocks -/

theorem unquote_escapeChar (c : Char) (rest : List Char) :
    unquote false (escapeChar c ++ rest) =
      (unquote false rest).map fun r => (c :: r.1, r.2 + (escapeChar c).length) := by
  rcases escapeChar_cases c with ⟨d, sign, chars⟩ | ⟨⟨quote, escape, line, back, _⟩, chars⟩
  · have resolved : ∀ p ∈ escapeSigns, escaped? p.2 = some p.1 := by decide
    simp [chars, unquote, resolved _ sign, Function.comp_def]
  · simp [chars, unquote, quote, escape, line, back]

theorem unquote_escapeString (cs rest : List Char) :
    unquote false (cs.flatMap escapeChar ++ '"' :: rest) =
      some (cs, (cs.flatMap escapeChar).length + 1) := by
  induction cs with
  | nil => rfl
  | cons c cs ih =>
      rw [List.flatMap_cons, List.append_assoc, unquote_escapeChar, ih, Option.map_some,
        List.length_append]
      congr 2
      omega

/-- An escaped string is read as the string. -/
theorem Lexes.string (cs : List Char) :
    Lexes Anything (escapeString cs) [.string (String.ofList cs)] := by
  rw [escapeString, List.cons_append]
  refine .of_token (by decide) fun rest _ => ?_
  rw [token, if_neg (by decide), if_neg (by decide), if_pos rfl, List.append_assoc,
    List.singleton_append, unquote_escapeString]
  simp

theorem Lexes.template {body : List Char} {t : Scanner}
    (h : Scanner.walk ⟨[.template], none⟩ body = some t) (inside : InTemplate t []) :
    Lexes Anything ('`' :: (body ++ ['`']))
      [.template (String.ofList ('`' :: (body ++ ['`'])))] := by
  refine .of_token (by decide) fun rest _ => ?_
  have length : Scanner.extent ⟨[.template], none⟩ (body ++ ['`'] ++ rest) =
      some (body ++ ['`']).length := by
    rw [List.append_assoc, Scanner.extent_append h (by simp [inside.1]), List.singleton_append,
      Scanner.extent, inside.step_close]
    simp [Nat.add_comm]
  rw [token, if_neg (by decide), if_neg (by decide), if_neg (by decide), if_pos rfl, length]
  simp only [List.take_left]

theorem Lexes.block {body : List Char} (h : Balanced body) :
    Lexes Anything ('{' :: (body ++ ['}']))
      [.block (String.ofList ('{' :: (body ++ ['}'])))] := by
  refine .of_token (by decide) fun rest _ => ?_
  have inside := h '}' []
  rw [List.map_nil, List.nil_append] at inside
  have length : Scanner.extent ⟨[.bracket '}'], none⟩ (body ++ ['}'] ++ rest) =
      some (body ++ ['}']).length := by
    rw [List.append_assoc, Scanner.extent_append inside (by simp)]
    simp [Scanner.extent, Scanner.step, Region.step, Region.inBracket, Region.ofOpening?, isClosing,
      Nat.add_comm]
  rw [token, if_neg (by decide), if_neg (by decide), if_neg (by decide), if_neg (by decide),
    if_pos rfl, length]
  simp only [List.take_left]

/-! ## Punctuators -/

/-- The characters with which a punctuator goes on to a longer one. -/
def continuations (m : String) : List Char :=
  marks.filterMap fun l =>
    if m.toList.isPrefixOf l.toList then l.toList[m.toList.length]? else none

theorem continuations_not : continuations "!" = ['=', '='] := by decide

theorem continuations_minus : continuations "-" = ['-', '='] := by decide

theorem continuations_tilde : continuations "~" = [] := by decide

theorem continuations_dot : continuations "." = ['.'] := by decide

theorem marks_pairwise : marks.Pairwise fun m l => m.toList.isPrefixOf l.toList = false := by
  decide

theorem marks_start : ∀ m ∈ marks, ∃ c cs, m.toList = c :: cs ∧ isBlank c = false ∧
    isDigit c = false ∧ beginsWord c = false ∧ c ≠ '"' ∧ c ≠ '`' ∧ c ≠ '{' := by
  intro m hm
  have checked : marks.all (fun m => match m.toList with
      | [] => false
      | c :: _ => !isBlank c && !isDigit c && !beginsWord c && c != '"' && c != '`'
        && c != '{') = true := by decide
  have this := List.all_eq_true.mp checked m hm
  cases chars : m.toList with
  | nil => simp [chars] at this
  | cons c cs =>
      simp only [chars, Bool.and_eq_true, Bool.not_eq_true', bne_iff_ne] at this
      obtain ⟨⟨⟨⟨⟨blank, digit⟩, word⟩, quote⟩, tick⟩, brace⟩ := this
      exact ⟨c, cs, rfl, blank, digit, word, quote, tick, brace⟩

/-- The longest punctuator is found. -/
theorem find_mark {m : String} {rest : List Char} (mem : m ∈ marks)
    (ends : ∀ c, rest.head? = some c → c ∉ continuations m) :
    (marks.find? fun l => l.toList.isPrefixOf (m.toList ++ rest)) = some m := by
  obtain ⟨before, after, split⟩ := List.append_of_mem mem
  refine List.find?_eq_some_iff_append.mpr ⟨by simp, before, after, split, fun l hl => ?_⟩
  have pairs := marks_pairwise
  rw [split] at pairs
  have shorter := (List.pairwise_append.mp pairs).2.2 l hl m List.mem_cons_self
  rw [Bool.not_eq_true', Bool.eq_false_iff]
  intro found
  rw [List.isPrefixOf_iff_prefix] at found
  rcases List.prefix_or_prefix_of_prefix found (List.prefix_append m.toList rest) with low | high
  · rw [List.isPrefixOf_iff_prefix.mpr low] at shorter
    cases shorter
  · -- A longer one would go on with the next character.
    obtain ⟨more, whole⟩ := high
    cases more with
    | nil =>
        rw [List.append_nil] at whole
        rw [← whole, List.isPrefixOf_iff_prefix.mpr (List.prefix_refl _)] at shorter
        cases shorter
    | cons c cs =>
        rw [← whole, List.prefix_append_right_inj] at found
        obtain ⟨further, rfl⟩ := found
        have goes : c ∈ continuations m := by
          refine List.mem_filterMap.mpr ⟨l, by rw [split]; simp [hl], ?_⟩
          rw [← whole, if_pos (by simp)]
          simp
        exact ends c rfl goes

theorem Lexes.mark {m : String} (mem : m ∈ marks) :
    Lexes (fun rest => ∀ c, rest.head? = some c → c ∉ continuations m) m.toList [.mark m] := by
  obtain ⟨c, cs, chars, blank, digit, word, quote, tick, brace⟩ := marks_start m mem
  rw [chars]
  refine .of_token blank fun rest ends => ?_
  have found := find_mark mem ends
  rw [chars, List.cons_append] at found
  rw [token, if_neg (by simp [digit]), if_neg (by simp [word]), if_neg quote, if_neg tick,
    if_neg brace, found]
  simp [chars]

/-- A punctuator that no other one begins with. -/
theorem Lexes.finalMark {m : String} (mem : m ∈ marks) (final : continuations m = []) :
    Lexes Anything m.toList [.mark m] :=
  (Lexes.mark mem).mono fun _ _ _ _ => by simp [final]

theorem Lexes.opening : Lexes Anything "(".toList [.mark "("] :=
  .finalMark (by decide) (by decide)

theorem Lexes.closing : Lexes Anything ")".toList [.mark ")"] :=
  .finalMark (by decide) (by decide)

/-- A punctuator between blanks. -/
theorem Lexes.spacedMark {m : String} (mem : m ∈ marks) (ends : ' ' ∉ continuations m) :
    Lexes Anything (' ' :: (m.toList ++ [' '])) [.mark m] := by
  have between := (Lexes.mark mem).append (Lexes.blank (c := ' ') (by decide))
    (fun rest _ c next => by cases next; exact ends)
  exact (Lexes.blank (c := ' ') (by decide)).append_of_anything between

/-- A dot in front of a word. -/
theorem Lexes.property {w : String} (h : isWord w = true) :
    Lexes WordStops (".".toList ++ w.toList) [.mark ".", .word w] := by
  refine (Lexes.mark (by decide)).append (Lexes.word (isJsWord_of_isWord h)) fun rest _ d next => ?_
  unfold isWord at h
  cases chars : w.toList with
  | nil => simp [chars] at h
  | cons c cs =>
      simp only [chars, Bool.and_eq_true] at h
      rw [chars] at next
      cases next
      rw [continuations_dot, List.mem_singleton]
      rintro rfl
      exact absurd h.1 (by decide)

/-- A word in front of a blank. -/
theorem Lexes.spacedWord {w : String} (h : isJsWord w = true) :
    Lexes Anything (w.toList ++ [' ']) [.word w] :=
  (Lexes.word h).append (Lexes.blank (c := ' ') (by decide)) fun rest _ =>
    WordStops.cons (by decide) rest

end Js

end TwoScript
