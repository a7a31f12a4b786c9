import Mathlib.Data.List.Basic
import TwoScript.Proofs.Js.Token

/-!
# The text that a literal stands for

The value of a string literal and of the text of a template, as ECMAScript gives them: in
UTF-16 units, with every escape sequence, and with the line ends of a template unified. A
string in generated code stands for the text it was written from. The text of a template is
neither ended nor interrupted early, but its carriage returns are read as line feeds:
`literals_read_back`.
-/

namespace TwoScript

namespace Js

/-! ## Units -/

def codeUnits (n : Nat) : List Nat :=
  if n < 0x10000 then [n]
  else [0xD800 + (n - 0x10000) / 0x400, 0xDC00 + (n - 0x10000) % 0x400]

def units (cs : List Char) : List Nat :=
  cs.flatMap fun c => codeUnits c.toNat

@[simp] theorem units_nil : units [] = [] := rfl

@[simp] theorem units_cons (c : Char) (cs : List Char) :
    units (c :: cs) = codeUnits c.toNat ++ units cs := rfl

/-! ## Readers -/

inductive TextEnd where
  | closed
  | substitution
deriving DecidableEq, Repr

/-- What a reader of literal text does at the front of a text: it takes characters for some
units, or the mark that ends the literal text, or it refuses what it finds. -/
inductive TextStep where
  | units (us : List Nat) (rest : List Char)
  | stop (mark : TextEnd) (rest : List Char)
  | refuse
deriving DecidableEq, Repr

/-- The units up to the end of a literal text, the end, and what follows it. -/
def readText (step : List Char → TextStep) (cs : List Char) :
    Option (List Nat × TextEnd × List Char) :=
  match step cs with
  | .refuse => none
  | .stop mark rest => some ([], mark, rest)
  | .units us rest =>
    if rest.length < cs.length then (readText step rest).map fun read => (us ++ read.1, read.2)
    else none
termination_by cs.length

def hexDigit? (c : Char) : Option Nat :=
  if isDigit c then some (c.toNat - '0'.toNat)
  else if 'a' ≤ c ∧ c ≤ 'f' then some (c.toNat - 'a'.toNat + 10)
  else if 'A' ≤ c ∧ c ≤ 'F' then some (c.toNat - 'A'.toNat + 10)
  else none

def hexValue? (cs : List Char) : Option Nat :=
  cs.foldlM (fun n c => (hexDigit? c).map (16 * n + ·)) 0

def hexEscape (count : Nat) (cs : List Char) : TextStep :=
  match hexValue? (cs.take count) with
  | some n => if count ≤ cs.length then .units (codeUnits n) (cs.drop count) else .refuse
  | none => .refuse

def codePointEscape (cs : List Char) : TextStep :=
  let digits := cs.takeWhile (· != '}')
  match hexValue? digits, cs.dropWhile (· != '}') with
  | some n, _ :: rest =>
    if digits ≠ [] ∧ n ≤ 0x10FFFF then .units (codeUnits n) rest else .refuse
  | _, _ => .refuse

/-- What is left behind a carriage return: a line feed belongs to it. -/
def behindReturn (cs : List Char) : List Char :=
  if cs.head? = some '\n' then cs.tail else cs

/-- An escape sequence, behind its backslash. In front of the end of a line it continues the
line and stands for nothing. -/
def escapeStep : List Char → TextStep
  | [] => .refuse
  | c :: cs =>
    match escaped? c with
    | some d => .units (codeUnits d.toNat) cs
    | none =>
      if c = '0' then if cs.head?.any isDigit then .refuse else .units [0] cs
      else if isDigit c then .refuse
      else if c = 'x' then hexEscape 2 cs
      else if c = 'u' then
        if cs.head? = some '{' then codePointEscape cs.tail else hexEscape 4 cs
      else if c = '\r' then .units [] (behindReturn cs)
      else if c = '\n' ∨ c = '\u2028' ∨ c = '\u2029' then .units [] cs
      else .units (codeUnits c.toNat) cs

def stringStep (quote : Char) : List Char → TextStep
  | [] => .refuse
  | c :: cs =>
    if c = quote then .stop .closed cs
    else if c = '\\' then escapeStep cs
    else if c = '\n' ∨ c = '\r' then .refuse
    else .units (codeUnits c.toNat) cs

def readString : List Char → Option (List Nat × TextEnd × List Char)
  | [] => none
  | c :: cs => if c = '"' ∨ c = '\'' then readText (stringStep c) cs else none

/-- A step in the text of a template. Every line ends with a line feed, however it is written. -/
def templateStep : List Char → TextStep
  | [] => .refuse
  | c :: cs =>
    if c = '`' then .stop .closed cs
    else if c = '$' ∧ cs.head? = some '{' then .stop .substitution cs.tail
    else if c = '\\' then escapeStep cs
    else if c = '\r' then .units (codeUnits '\n'.toNat) (behindReturn cs)
    else .units (codeUnits c.toNat) cs

def readTemplate (cs : List Char) : Option (List Nat × TextEnd × List Char) :=
  readText templateStep cs

section

variable {step : List Char → TextStep} {cs rest : List Char} {us : List Nat}

theorem readText_stop {mark : TextEnd} (h : step cs = .stop mark rest) :
    readText step cs = some ([], mark, rest) := by
  rw [readText, h]

theorem readText_units {front : List Char} (h : step (front ++ rest) = .units us rest)
    (written : front ≠ []) :
    readText step (front ++ rest) =
      (readText step rest).map fun read => (us ++ read.1, read.2) := by
  have long := List.length_pos_iff.mpr written
  have shorter : rest.length < (front ++ rest).length := by
    simp only [List.length_append]
    omega
  rw [readText, h]
  exact if_pos shorter

end

/-! ## Strings -/

/-- An escaped character is read in one step. -/
theorem stringStep_escapeChar (c : Char) (rest : List Char) :
    stringStep '"' (escapeChar c ++ rest) = .units (codeUnits c.toNat) rest := by
  rcases escapeChar_cases c with ⟨d, sign, chars⟩ | ⟨⟨quote, escape, line, back, _⟩, chars⟩
  · have resolved : ∀ p ∈ escapeSigns,
        stringStep '"' ('\\' :: p.2 :: rest) = .units (codeUnits p.1.toNat) rest := by
      simp only [escapeSigns, List.forall_mem_cons]
      exact ⟨rfl, rfl, rfl, rfl, rfl, by simp⟩
    rw [chars]
    exact resolved _ sign
  · simp [chars, stringStep, quote, escape, line, back]

theorem readString_escapeString (cs rest : List Char) :
    readString (escapeString cs ++ rest) = some (units cs, .closed, rest) := by
  have inside : readText (stringStep '"') (cs.flatMap escapeChar ++ '"' :: rest) =
      some (units cs, .closed, rest) := by
    induction cs with
    | nil => exact readText_stop rfl
    | cons c cs ih =>
        have written : escapeChar c ≠ [] := by
          rcases escapeChar_cases c with ⟨d, _, chars⟩ | ⟨_, chars⟩ <;> simp [chars]
        rw [List.flatMap_cons, List.append_assoc,
          readText_units (stringStep_escapeChar c _) written, ih]
        rfl
  simpa [readString, escapeString] using inside

/-! ## Templates -/

def unifyLines : List Char → List Char
  | [] => []
  | c :: cs =>
    if c = '\r' then
      if cs.head? = some '\n' then unifyLines cs else '\n' :: unifyLines cs
    else c :: unifyLines cs

/-- A line feed behind a carriage return adds nothing to it. -/
theorem readTemplate_return_feed (cs : List Char) :
    readTemplate (['\r', '\n'] ++ cs) = readTemplate (['\n'] ++ cs) := by
  have both : templateStep (['\r', '\n'] ++ cs) = .units (codeUnits '\n'.toNat) cs := rfl
  have feed : templateStep (['\n'] ++ cs) = .units (codeUnits '\n'.toNat) cs := rfl
  rw [readTemplate, readText_units both (by simp), readTemplate, readText_units feed (by simp)]

section

variable {tail : List Char} {mark : TextEnd} {rest : List Char}

/-- Escaping puts nothing but backslashes in front of characters. -/
theorem head?_escapeTemplate {d : Char} (plain : d ∉ ['`', '\\', '$'])
    (ends : tail.head? = some '`' ∨ tail.head? = some '$') (cs : List Char) :
    (escapeTemplate cs ++ tail).head? = some d ↔ cs.head? = some d := by
  cases cs with
  | nil => grind [escapeTemplate]
  | cons c cs => grind [escapeTemplate]

theorem templateStep_escaped {c : Char} (special : c = '`' ∨ c = '\\' ∨ c = '$')
    (cs : List Char) : templateStep ('\\' :: c :: cs) = .units (codeUnits c.toNat) cs := by
  rcases special with rfl | rfl | rfl <;> rfl

theorem templateStep_return {cs : List Char} (single : cs.head? ≠ some '\n') :
    templateStep ('\r' :: cs) = .units (codeUnits '\n'.toNat) cs := by
  simp [templateStep, behindReturn, single]

theorem templateStep_plain {c : Char} {cs : List Char}
    (plain : ¬(c = '`' ∨ c = '\\' ∨ c = '$' ∧ cs.head? = some '{')) (other : c ≠ '\r') :
    templateStep (c :: cs) = .units (codeUnits c.toNat) cs := by
  rw [not_or, not_or] at plain
  rw [templateStep, if_neg plain.1, if_neg plain.2.2, if_neg plain.2.1, if_neg other]

/-- Escaped text is read up to the mark behind it. -/
theorem readTemplate_escapeTemplate (stops : templateStep tail = .stop mark rest)
    (ends : tail.head? = some '`' ∨ tail.head? = some '$') (cs : List Char) :
    readTemplate (escapeTemplate cs ++ tail) = some (units (unifyLines cs), mark, rest) := by
  induction cs with
  | nil => exact readText_stop stops
  | cons c cs ih =>
      have onward : ∀ (front : List Char) {us},
          templateStep (front ++ (escapeTemplate cs ++ tail)) =
            .units us (escapeTemplate cs ++ tail) → front ≠ [] →
          readTemplate (front ++ (escapeTemplate cs ++ tail)) =
            some (us ++ units (unifyLines cs), mark, rest) := by
        intro front us step written
        rw [readTemplate, readText_units step written, ← readTemplate, ih]
        rfl
      have feed := head?_escapeTemplate (d := '\n') (by decide) ends cs
      have brace := head?_escapeTemplate (d := '{') (by decide) ends cs
      by_cases back : c = '\r'
      · subst back
        by_cases pair : cs.head? = some '\n'
        · -- The line feed is read for both.
          obtain ⟨ds, rfl⟩ := List.head?_eq_some_iff.mp pair
          exact (readTemplate_return_feed _).trans ih
        · rw [← feed] at pair
          have read := onward ['\r'] (templateStep_return pair) (by simp)
          rw [feed] at pair
          simpa [escapeTemplate, unifyLines, pair] using read
      · by_cases special : c = '`' ∨ c = '\\' ∨ c = '$' ∧ cs.head? = some '{'
        · have mark := special.imp_right (Or.imp_right And.left)
          have read := onward ['\\', c] (templateStep_escaped mark _) (by simp)
          simpa [escapeTemplate, unifyLines, special, back] using read
        · rw [← brace] at special
          have read := onward [c] (templateStep_plain special back) (by simp)
          rw [brace] at special
          simpa [escapeTemplate, unifyLines, special, back] using read

end

/-- No unit of a character but a carriage return is one. -/
theorem return_mem_codeUnits {n : Nat} : 0x0D ∈ codeUnits n ↔ n = 0x0D := by
  unfold codeUnits
  split
  · simp [eq_comm]
  · simp only [List.mem_cons, List.not_mem_nil, or_false]
    omega

theorem return_mem_units {cs : List Char} : 0x0D ∈ units cs ↔ '\r' ∈ cs := by
  rw [units, List.mem_flatMap]
  simp only [return_mem_codeUnits]
  constructor
  · rintro ⟨c, member, same⟩
    have back : c = '\r' := Char.toNat_inj.mp same
    rwa [← back]
  · exact fun member => ⟨'\r', member, rfl⟩

theorem return_not_mem_unifyLines (cs : List Char) : '\r' ∉ unifyLines cs := by
  fun_induction unifyLines cs with
  | case1 => simp
  | case2 _ _ ih => exact ih
  | case3 _ _ ih => simpa using ih
  | case4 c cs other ih => simpa [Ne.symm other] using ih

theorem unifyLines_of_no_return {cs : List Char} (h : '\r' ∉ cs) : unifyLines cs = cs := by
  induction cs with
  | nil => rfl
  | cons c cs ih =>
      rw [List.mem_cons, not_or] at h
      rw [unifyLines, if_neg (Ne.symm h.1), ih h.2]

/-- Literals of generated code are read as the texts they were written from. A string literal
gives back its text and ends with its quote. The escaped text of a template ends where it ends
in the code, at a backtick or at a substitution, and gives back its text with unified line ends,
which is the text itself if and only if it holds no carriage return. -/
theorem literals_read_back (cs rest : List Char) :
    readString (escapeString cs ++ rest) = some (units cs, .closed, rest) ∧
    readTemplate (escapeTemplate cs ++ '`' :: rest) =
      some (units (unifyLines cs), .closed, rest) ∧
    readTemplate (escapeTemplate cs ++ '$' :: '{' :: rest) =
      some (units (unifyLines cs), .substitution, rest) ∧
    (units (unifyLines cs) = units cs ↔ '\r' ∉ cs) := by
  refine ⟨readString_escapeString cs rest, readTemplate_escapeTemplate rfl (.inl rfl) cs,
    readTemplate_escapeTemplate rfl (.inr rfl) cs, fun same => ?_, fun none => ?_⟩
  · rw [← return_mem_units, ← same, return_mem_units]
    exact return_not_mem_unifyLines cs
  · rw [unifyLines_of_no_return none]

/-- A template with a carriage return stands for another text than it was written from. -/
theorem literals_read_back_return :
    readTemplate (escapeTemplate ['a', '\r', 'b'] ++ ['`']) =
        some (units ['a', '\n', 'b'], .closed, []) ∧
      units ['a', '\n', 'b'] ≠ units ['a', '\r', 'b'] := by
  obtain ⟨_, closed, _, same⟩ := literals_read_back ['a', '\r', 'b'] []
  exact ⟨closed, mt same.mp (by decide)⟩

end Js

end TwoScript
