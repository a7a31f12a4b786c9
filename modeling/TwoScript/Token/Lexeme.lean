import TwoScript.Number.Decimal
import TwoScript.Token.Basic
import TwoScript.Token.Spelling
import TwoScript.Token.Template

/-!
# Lexemes

A lexeme is the longest stretch of characters that makes one token. Each reader below
splits its input into the characters it takes and those that follow, so no character
is lost or made up: the `_append` lemmas say so.
-/

namespace TwoScript

/-- Characters taken from the front of a text, those that follow, and whether the end
that was looked for was found. -/
structure Cut where
  closed : Bool
  taken : List Char
  rest : List Char
deriving DecidableEq, Repr

namespace Cut

def push (c : Char) (k : Cut) : Cut :=
  { k with taken := c :: k.taken }

@[simp] theorem push_append (c : Char) (k : Cut) :
    (k.push c).taken ++ (k.push c).rest = c :: (k.taken ++ k.rest) := rfl

end Cut

/-! ## Between tokens -/

def isBlank (c : Char) : Bool :=
  c == ' ' || c == '\t' || c == '\r' || c == '\n' || c == '\x0c'

/-- Splits off blanks and comments. A comment begins with two slashes and runs up to a
line feed; `comment` says that one is under way. -/
def splitBlank (comment : Bool) : List Char → List Char × List Char
  | [] => ([], [])
  | c :: cs =>
    if comment || isBlank c || (c == '/' && cs.head? == some '/') then
      let split := splitBlank (if comment then c != '\n' else c == '/') cs
      (c :: split.1, split.2)
    else ([], c :: cs)

theorem splitBlank_append (comment : Bool) (cs : List Char) :
    (splitBlank comment cs).1 ++ (splitBlank comment cs).2 = cs := by
  induction cs generalizing comment with
  | nil => rfl
  | cons c cs ih =>
    unfold splitBlank
    split
    · simp [ih]
    · rfl

/-! ## Words -/

/-- A Devanagari letter or sign, dandas and digits apart. -/
def isDevanagariLetter (c : Char) : Bool :=
  ('\u0900' ≤ c && c ≤ '\u0963') || ('\u0970' ≤ c && c ≤ '\u097f')

def isWordStart (c : Char) : Bool :=
  ('a' ≤ c && c ≤ 'z') || ('A' ≤ c && c ≤ 'Z') || c == '_' || isDevanagariLetter c

def isWordPart (c : Char) : Bool :=
  isWordStart c || isDigit c || ('\u0966' ≤ c && c ≤ '\u096f')

/-! ## Symbols -/

def symbol? (c : Char) : Option Kind :=
  match c with
  | '(' => some .leftParen
  | ')' => some .rightParen
  | '{' => some .leftBrace
  | '}' => some .rightBrace
  | ',' => some .comma
  | '.' => some .dot
  | ';' => some .semicolon
  | '\u0964' => some .semicolon
  | ':' => some .colon
  | '+' => some .plus
  | '-' => some .minus
  | '*' => some .star
  | '/' => some .slash
  | '%' => some .percent
  | '!' => some .bang
  | '~' => some .tilde
  | '^' => some .caret
  | '&' => some .ampersand
  | '|' => some .pipe
  | '=' => some .equal
  | '<' => some .less
  | '>' => some .greater
  | _ => none

def symbolPair? (c d : Char) : Option Kind :=
  match c, d with
  | '-', '>' => some .arrow
  | '&', '&' => some .andAnd
  | '|', '|' => some .orOr
  | '<', '<' => some .shiftLeft
  | '>', '>' => some .shiftRight
  | '=', '=' => some .equalEqual
  | '!', '=' => some .bangEqual
  | '<', '=' => some .lessEqual
  | '>', '=' => some .greaterEqual
  | '+', '=' => some .plusEqual
  | '-', '=' => some .minusEqual
  | '*', '=' => some .starEqual
  | '/', '=' => some .slashEqual
  | '%', '=' => some .percentEqual
  | _, _ => none

/-! ## Quoted text -/

/-- Splits the text behind an opening quote at the closing one. A backslash hides the
next character, but neither the end of the line nor the end of the text. -/
def splitQuoted (quote : Char) : List Char → Cut
  | [] => ⟨false, [], []⟩
  | c :: cs =>
    if c = '\n' then ⟨false, [], c :: cs⟩
    else if c = '\\' then
      match cs with
      | [] => ⟨false, [c], []⟩
      | d :: ds =>
        if d = '\n' then ⟨false, [c], d :: ds⟩
        else ((splitQuoted quote ds).push d).push c
    else if c = quote then ⟨true, [c], cs⟩
    else (splitQuoted quote cs).push c

theorem splitQuoted_append (quote : Char) (cs : List Char) :
    (splitQuoted quote cs).taken ++ (splitQuoted quote cs).rest = cs := by
  fun_induction splitQuoted quote cs <;> simp_all

def splitTemplate (m : TemplateMode) : List Char → Cut
  | [] => ⟨false, [], []⟩
  | c :: cs =>
    if m = .text ∧ c = '`' then ⟨true, [c], cs⟩
    else (splitTemplate (m.step c cs.head?) cs).push c

theorem splitTemplate_append (m : TemplateMode) (cs : List Char) :
    (splitTemplate m cs).taken ++ (splitTemplate m cs).rest = cs := by
  fun_induction splitTemplate m cs <;> simp_all

/-! ## Lexemes -/

/-- One lexeme: its kind, its literal value, its characters and those that follow. -/
structure Lexeme where
  kind : Kind
  literal : Option Literal
  chars : List Char
  rest : List Char
deriving DecidableEq, Repr

namespace Lexeme

/-- A digit run, with a fraction when a digit follows the point. -/
def number (cs : List Char) : Lexeme :=
  let whole := cs.takeWhile isDigit
  match cs.dropWhile isDigit with
  | '.' :: d :: rest =>
    if isDigit d then
      let fraction := (d :: rest).takeWhile isDigit
      { kind := .number
        literal := some (.number (.ofDigits whole fraction))
        chars := whole ++ '.' :: fraction
        rest := (d :: rest).dropWhile isDigit }
    else
      { kind := .number
        literal := some (.number (.ofDigits whole []))
        chars := whole
        rest := '.' :: d :: rest }
  | rest =>
    { kind := .number
      literal := some (.number (.ofDigits whole []))
      chars := whole
      rest }

def wordMeaning (word : String) : Kind × Option Literal :=
  match keyword? word with
  | some .trueWord => (.trueWord, some (.boolean true))
  | some .falseWord => (.falseWord, some (.boolean false))
  | some .nullWord => (.nullWord, some .null)
  | some kind => (kind, none)
  | none => (.identifier, none)

def word (cs : List Char) : Lexeme :=
  let chars := cs.takeWhile isWordPart
  let meaning := wordMeaning (String.ofList chars)
  { kind := meaning.1, literal := meaning.2, chars, rest := cs.dropWhile isWordPart }

def quoted (quote : Char) (cs : List Char) : Lexeme :=
  let cut := splitQuoted quote cs
  { kind := if cut.closed then .string else .invalid .unterminatedString
    literal :=
      if cut.closed then some (.string (String.ofList (unescape cut.taken.dropLast)))
      else none
    chars := quote :: cut.taken
    rest := cut.rest }

def template (cs : List Char) : Lexeme :=
  let cut := splitTemplate .text cs
  { kind := if cut.closed then .template else .invalid .unterminatedTemplate
    literal :=
      if cut.closed then
        some (.string (String.ofList (templateValue .text cut.taken.dropLast)))
      else none
    chars := '`' :: cut.taken
    rest := cut.rest }

/-- The longest symbol that begins with `c`, or an unexpected character. -/
def symbol (c : Char) (cs : List Char) : Lexeme :=
  match cs.head?.bind (symbolPair? c) with
  | some kind => { kind, literal := none, chars := c :: cs.take 1, rest := cs.drop 1 }
  | none =>
    { kind := (symbol? c).getD (.invalid .unexpectedCharacter)
      literal := none
      chars := [c]
      rest := cs }

/-- The lexeme at the front of `c :: cs`, where `c` is no blank and begins no comment. -/
def read (c : Char) (cs : List Char) : Lexeme :=
  if isDigit c then number (c :: cs)
  else if isWordStart c then word (c :: cs)
  else if c = '"' ∨ c = '\'' then quoted c cs
  else if c = '`' then template cs
  else symbol c cs

/-- How lexemes that begin with the character are read. -/
inductive Manner (c : Char) : Prop where
  | number (digit : isDigit c = true) (lexeme : ∀ cs, read c cs = number (c :: cs))
  | word (start : isWordStart c = true) (lexeme : ∀ cs, read c cs = word (c :: cs))
  | quoted (mark : c = '"' ∨ c = '\'') (lexeme : ∀ cs, read c cs = quoted c cs)
  | template (tick : c = '`') (lexeme : ∀ cs, read c cs = template cs)
  | symbol (lexeme : ∀ cs, read c cs = symbol c cs)

/-- The first character of a lexeme decides how the lexeme is read. -/
theorem manner (c : Char) : Manner c := by
  by_cases digit : isDigit c = true
  · exact .number digit fun cs => if_pos digit
  by_cases start : isWordStart c = true
  · exact .word start fun cs => by rw [read, if_neg digit, if_pos start]
  by_cases mark : c = '"' ∨ c = '\''
  · exact .quoted mark fun cs => by rw [read, if_neg digit, if_neg start, if_pos mark]
  by_cases tick : c = '`'
  · exact .template tick fun cs => by
      rw [read, if_neg digit, if_neg start, if_neg mark, if_pos tick]
  · exact .symbol fun cs => by rw [read, if_neg digit, if_neg start, if_neg mark, if_neg tick]

theorem number_append (cs : List Char) : (number cs).chars ++ (number cs).rest = cs := by
  have split := List.takeWhile_append_dropWhile (p := isDigit) (l := cs)
  unfold number
  split
  · split
    · rename_i d rest digits _
      have fraction := List.takeWhile_append_dropWhile (p := isDigit) (l := d :: rest)
      simp only [List.append_assoc, List.cons_append, fraction]
      rw [← digits, split]
    · rename_i digits _
      simp only
      rw [← digits, split]
  · exact split

theorem word_append (cs : List Char) : (word cs).chars ++ (word cs).rest = cs :=
  List.takeWhile_append_dropWhile

theorem quoted_append (quote : Char) (cs : List Char) :
    (quoted quote cs).chars ++ (quoted quote cs).rest = quote :: cs := by
  simp [quoted, splitQuoted_append]

theorem template_append (cs : List Char) :
    (template cs).chars ++ (template cs).rest = '`' :: cs := by
  simp [template, splitTemplate_append]

theorem symbol_append (c : Char) (cs : List Char) :
    (symbol c cs).chars ++ (symbol c cs).rest = c :: cs := by
  unfold symbol
  split
  · exact congrArg (c :: ·) (List.take_append_drop 1 cs)
  · rfl

/-- A lexeme and what follows it are the text it was read from. -/
theorem read_append (c : Char) (cs : List Char) :
    (read c cs).chars ++ (read c cs).rest = c :: cs := by
  cases manner c with
  | number _ lexeme => rw [lexeme, number_append]
  | word _ lexeme => rw [lexeme, word_append]
  | quoted _ lexeme => rw [lexeme, quoted_append]
  | template tick lexeme => rw [lexeme, template_append, tick]
  | symbol lexeme => rw [lexeme, symbol_append]

theorem isWordPart_of_isWordStart {c : Char} (h : isWordStart c = true) :
    isWordPart c = true := by
  simp [isWordPart, h]

/-- A lexeme holds at least one character. -/
theorem read_chars_ne_nil (c : Char) (cs : List Char) : (read c cs).chars ≠ [] := by
  cases manner c with
  | number digit lexeme =>
      rw [lexeme, number]
      split
      · split <;> simp [digit]
      · simp [digit]
  | word start lexeme => simp [lexeme, word, isWordPart_of_isWordStart start]
  | quoted _ lexeme => simp [lexeme, quoted]
  | template _ lexeme => simp [lexeme, template]
  | symbol lexeme =>
      rw [lexeme, symbol]
      split <;> simp

theorem read_rest_length (c : Char) (cs : List Char) :
    (read c cs).rest.length ≤ cs.length := by
  have lengths := congrArg List.length (read_append c cs)
  have taken := List.length_pos_iff.mpr (read_chars_ne_nil c cs)
  simp only [List.length_append, List.length_cons] at lengths
  omega

end Lexeme

end TwoScript
