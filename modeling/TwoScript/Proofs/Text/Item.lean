import TwoScript.Text.Quoted
import TwoScript.Proofs.Token.Spell

/-!
# Items of a listing

A listing is made of words, operators, quoted texts and lists between parentheses, with single
spaces between them. What is written of an item ends before a space or a closing parenthesis,
and can be read in one way only: `Item.chars_injective`.
-/

namespace TwoScript

/-! ## Quoted text -/

def hexNumber (digits : List Char) : Nat :=
  digits.foldl (fun n c => 16 * n + if isDigit c then c.toNat - '0'.toNat
    else c.toNat - 'a'.toNat + 10) 0

/-- What holds of single digits, and of digits with one more behind them, holds of every number
that is written. -/
theorem hexDigits_induction {motive : List Char → Nat → Prop}
    (digit : ∀ d < 16, motive [Nat.digitChar d] d)
    (more : ∀ cs n, motive cs (n / 16) → motive (cs ++ [Nat.digitChar (n % 16)]) n) (n : Nat) :
    motive (hexDigits n) n := by
  induction n using Nat.strongRecOn with
  | ind n ih =>
      unfold hexDigits at ih ⊢
      rcases Nat.lt_or_ge n 16 with small | large
      · rw [Nat.toDigits_of_lt_base small]
        exact digit n small
      · rw [Nat.toDigits_of_base_le (by decide) large]
        exact more _ n (ih (n / 16) (Nat.div_lt_self (by omega) (by decide)))

theorem hexNumber_hexDigits (n : Nat) : hexNumber (hexDigits n) = n := by
  have digit : ∀ d < 16, hexNumber [Nat.digitChar d] = d := by decide
  refine hexDigits_induction (motive := fun cs n => hexNumber cs = n) digit (fun cs n front => ?_) n
  have last := digit (n % 16) (Nat.mod_lt n (by decide))
  simp only [hexNumber, List.foldl_append, List.foldl_cons, List.foldl_nil] at front last ⊢
  rw [front]
  omega

theorem ne_brace_of_mem_hexDigits (n : Nat) : ∀ c ∈ hexDigits n, (c != '}') = true := by
  refine hexDigits_induction (motive := fun cs _ => ∀ c ∈ cs, (c != '}') = true) ?_ ?_ n
  · intro d _
    simp
  · intro cs n front
    rw [List.forall_mem_append]
    exact ⟨front, by simp⟩

def unescaped (c : Char) : Char :=
  if c = 't' then '\t' else if c = 'r' then '\r' else if c = 'n' then '\n'
  else if c = '0' then '\x00' else c

def unquoteChar : List Char → Option (Char × List Char)
  | '\\' :: 'u' :: cs =>
    some (Char.ofNat (hexNumber (cs.tail.takeWhile (· != '}'))),
      (cs.tail.dropWhile (· != '}')).tail)
  | '\\' :: c :: cs => some (unescaped c, cs)
  | c :: cs => some (c, cs)
  | [] => none

theorem unquoteChar_quoteChar (c : Char) (rest : List Char) :
    unquoteChar (quoteChar c ++ rest) = some (c, rest) := by
  unfold quoteChar
  by_cases quote : c = '"'
  · subst quote
    rfl
  by_cases escape : c = '\\'
  · subst escape
    rfl
  by_cases tab : c = '\t'
  · subst tab
    rfl
  by_cases back : c = '\r'
  · subst back
    rfl
  by_cases line : c = '\n'
  · subst line
    rfl
  by_cases null : c = '\x00'
  · subst null
    rfl
  by_cases glyphless : isGlyphless c = true
  · have stop : ∀ d, ('}' :: rest).head? = some d → (d != '}') = false := by simp
    have digits := run_append (ne_brace_of_mem_hexDigits c.toNat) stop
    simp [unquoteChar, quote, escape, tab, back, line, null, glyphless, digits,
      hexNumber_hexDigits]
  · simp [unquoteChar, quote, escape, tab, back, line, null, glyphless]

/-- A quoted text ends with its quote and stands for one text only. -/
theorem flatMap_quoteChar_cancel {cs ds r r' : List Char}
    (same : cs.flatMap quoteChar ++ '"' :: r = ds.flatMap quoteChar ++ '"' :: r') :
    cs = ds ∧ r = r' := by
  have open_ne : ∀ (c : Char) (x y : List Char), '"' :: x ≠ quoteChar c ++ y := by
    intro c x y equal
    have first := congrArg unquoteChar equal
    rw [unquoteChar_quoteChar] at first
    obtain ⟨rfl, _⟩ := Prod.mk.inj (Option.some.inj first)
    cases equal
  induction cs generalizing ds with
  | nil =>
      cases ds with
      | nil => exact ⟨rfl, (List.cons.inj same).2⟩
      | cons d ds =>
          rw [List.flatMap_cons, List.append_assoc] at same
          exact (open_ne d _ _ same).elim
  | cons c cs ih =>
      rw [List.flatMap_cons, List.append_assoc] at same
      cases ds with
      | nil => exact (open_ne c _ _ same.symm).elim
      | cons d ds =>
          rw [List.flatMap_cons, List.append_assoc] at same
          have read := congrArg unquoteChar same
          rw [unquoteChar_quoteChar, unquoteChar_quoteChar] at read
          obtain ⟨rfl, rest⟩ := Prod.mk.inj (Option.some.inj read)
          obtain ⟨rfl, behind⟩ := ih rest
          exact ⟨rfl, behind⟩

/-! ## Items -/

/-- A part of a listing. In a `pair` a value stands behind a word and a sign of equality. -/
inductive Item where
  | word (text : String)
  | mark (text : String)
  | text (value : String)
  | pair (name : String) (value : Item)
  | list (items : List Item)

mutual

def Item.chars : Item → List Char
  | .word w => w.toList
  | .mark m => m.toList
  | .text s => (quoteText s).toList
  | .pair w value => w.toList ++ '=' :: value.chars
  | .list [] => ['(', ')']
  | .list (i :: is) => '(' :: (i.chars ++ (tailChars is ++ [')']))

def tailChars : List Item → List Char
  | [] => []
  | i :: is => ' ' :: (i.chars ++ tailChars is)

end

def isSolid (c : Char) : Bool :=
  c != ' ' && c != '(' && c != ')' && c != '"'

/-- A word: at least one of its characters can stand in a name. -/
structure IsListedWord (w : String) : Prop where
  solid : ∀ c ∈ w.toList, isSolid c = true
  unequal : '=' ∉ w.toList
  part : ∃ c ∈ w.toList, isWordPart c = true

/-- An operator: none of its characters can stand in a name. -/
structure IsListedMark (m : String) : Prop where
  solid : ∀ c ∈ m.toList, isSolid c = true
  bare : ∀ c ∈ m.toList, isWordPart c = false
  nonempty : m.toList ≠ []

theorem IsListedMark.of_all {m : String}
    (h : (m.toList.all fun c => isSolid c && !isWordPart c) = true) (nonempty : m.toList ≠ []) :
    IsListedMark m := by
  simp only [List.all_eq_true, Bool.and_eq_true, Bool.not_eq_true'] at h
  exact ⟨fun c member => (h c member).1, fun c member => (h c member).2, nonempty⟩

mutual

def Item.Valid : Item → Prop
  | .word w => IsListedWord w
  | .mark m => IsListedMark m
  | .text _ => True
  | .pair w value => IsListedWord w ∧ value.Valid
  | .list is => itemsValid is

def itemsValid : List Item → Prop
  | [] => True
  | i :: is => i.Valid ∧ itemsValid is

end

/-! ## Reading an item -/

inductive Item.Form where
  | word
  | mark
  | text
  | pair
  | list
deriving DecidableEq, Repr

namespace Item

def form : Item → Form
  | word _ => .word
  | mark _ => .mark
  | text _ => .text
  | pair _ _ => .pair
  | list _ => .list

def formOf (cs : List Char) : Form :=
  if cs.head? = some '"' then .text
  else if cs.head? = some '(' then .list
  else if (cs.takeWhile isSolid).any isWordPart then
    if (cs.takeWhile isSolid).contains '=' then .pair else .word
  else .mark

def Ends (rest : List Char) : Prop :=
  ∀ c, rest.head? = some c → c = ' ' ∨ c = ')'

variable {i j : Item} {is js : List Item} {rest rest' : List Char}

theorem ends_nil : Ends [] := by
  simp [Ends]

theorem ends_tailChars (is : List Item) (rest : List Char) :
    Ends (tailChars is ++ ')' :: rest) := by
  cases is <;> simp [Ends, tailChars]

theorem Ends.not_solid (h : Ends rest) : ∀ c, rest.head? = some c → isSolid c = false := by
  intro c first
  rcases h c first with rfl | rfl <;> rfl

theorem head?_run {cs : List Char} {d : Char} (solid : ∀ c ∈ cs, isSolid c = true)
    (nonempty : cs ≠ []) (other : isSolid d = false) : (cs ++ rest).head? ≠ some d := by
  obtain ⟨c, cs, rfl⟩ := List.exists_cons_of_ne_nil nonempty
  rintro first
  obtain rfl : c = d := by simpa using first
  rw [solid c (by simp)] at other
  cases other

theorem formOf_run {cs : List Char} (solid : ∀ c ∈ cs, isSolid c = true) (nonempty : cs ≠ []) :
    formOf (cs ++ rest) =
      if ((cs ++ rest).takeWhile isSolid).any isWordPart then
        if ((cs ++ rest).takeWhile isSolid).contains '=' then .pair else .word
      else .mark := by
  rw [formOf, if_neg (head?_run solid nonempty (by decide)),
    if_neg (head?_run solid nonempty (by decide))]

theorem chars_text (s : String) (rest : List Char) :
    (text s).chars ++ rest = '"' :: (s.toList.flatMap quoteChar ++ '"' :: rest) := by
  simp [chars, quoteText]

theorem chars_list_cons (i : Item) (is : List Item) (rest : List Char) :
    (list (i :: is)).chars ++ rest = '(' :: (i.chars ++ (tailChars is ++ ')' :: rest)) := by
  simp [chars]

/-- No item begins with the end of a list. -/
theorem head?_chars (valid : i.Valid) : (i.chars ++ rest).head? ≠ some ')' := by
  cases i with
  | word w =>
      obtain ⟨_, member, _⟩ := valid.part
      exact head?_run valid.solid (List.ne_nil_of_mem member) (by decide)
  | mark m => exact head?_run valid.solid valid.nonempty (by decide)
  | text s => simp [chars, quoteText]
  | pair w value =>
      obtain ⟨_, member, _⟩ := valid.1.part
      rw [chars, List.append_assoc]
      exact head?_run valid.1.solid (List.ne_nil_of_mem member) (by decide)
  | list is => cases is <;> simp [chars]

/-- The form of an item can be seen from its first characters. -/
theorem formOf_chars (valid : i.Valid) (ends : Ends rest) : formOf (i.chars ++ rest) = i.form := by
  cases i with
  | word w =>
      obtain ⟨solid, unequal, c, member, part⟩ := valid
      have some : w.toList.any isWordPart = true := List.any_eq_true.mpr ⟨c, member, part⟩
      rw [chars, formOf_run solid (List.ne_nil_of_mem member), (run_append solid ends.not_solid).1,
        if_pos some, if_neg (by simpa using unequal), form]
  | mark m =>
      obtain ⟨solid, bare, nonempty⟩ := valid
      have none : m.toList.any isWordPart = false := by simpa using bare
      rw [chars, formOf_run solid nonempty, (run_append solid ends.not_solid).1, none,
        if_neg Bool.false_ne_true, form]
  | text s => simp [chars, quoteText, formOf, form]
  | pair w value =>
      obtain ⟨⟨solid, _, c, member, part⟩, _⟩ := valid
      have some : w.toList.any isWordPart = true := List.any_eq_true.mpr ⟨c, member, part⟩
      rw [chars, List.append_assoc, formOf_run solid (List.ne_nil_of_mem member),
        List.takeWhile_append_of_pos solid, List.any_append, some, Bool.true_or, if_pos rfl,
        if_pos (by simp [isSolid]), form]
  | list is => cases is <;> simp [chars, formOf, form]

/-- Words and operators end where something else begins. -/
theorem run_cancel {cs ds : List Char} (left : ∀ c ∈ cs, isSolid c = true)
    (right : ∀ c ∈ ds, isSolid c = true) (ends : Ends rest) (ends' : Ends rest')
    (same : cs ++ rest = ds ++ rest') : cs = ds ∧ rest = rest' := by
  have first := run_append left ends.not_solid
  have second := run_append right ends'.not_solid
  rw [same] at first
  exact ⟨first.1.symm.trans second.1, first.2.symm.trans second.2⟩

/-- What was written behind a word and a sign of equality. -/
theorem pair_cancel {ws vs cs ds : List Char} (left : '=' ∉ ws) (right : '=' ∉ vs)
    (same : ws ++ '=' :: cs = vs ++ '=' :: ds) : ws = vs ∧ cs = ds := by
  have run : ∀ {us : List Char}, '=' ∉ us → ∀ c ∈ us, (c != '=') = true := by
    intro us unequal c member
    exact bne_iff_ne.mpr fun equal => unequal (equal ▸ member)
  have stop : ∀ (us : List Char) c, ('=' :: us).head? = some c → (c != '=') = false := by simp
  have first := run_append (run left) (stop cs)
  have second := run_append (run right) (stop ds)
  rw [same, second.1, second.2] at first
  exact ⟨first.1.symm, (List.cons.inj first.2).2.symm⟩

theorem form_eq (valid : i.Valid) (valid' : j.Valid) (ends : Ends rest) (ends' : Ends rest')
    (same : i.chars ++ rest = j.chars ++ rest') : i.form = j.form := by
  rw [← formOf_chars valid ends, ← formOf_chars valid' ends', same]

mutual

/-- An item is read in one way only, and so is what follows it. -/
theorem chars_cancel : ∀ (i j : Item) (rest rest' : List Char), i.Valid → j.Valid →
    Ends rest → Ends rest' → i.chars ++ rest = j.chars ++ rest' → i = j ∧ rest = rest'
  | word w => by
    intro j rest rest' valid valid' ends ends' same
    have form := form_eq valid valid' ends ends' same
    cases j with
    | word w' =>
        obtain ⟨text, behind⟩ := run_cancel valid.solid valid'.solid ends ends' same
        exact ⟨by rw [String.toList_inj.mp text], behind⟩
    | _ => cases form
  | mark m => by
    intro j rest rest' valid valid' ends ends' same
    have form := form_eq valid valid' ends ends' same
    cases j with
    | mark m' =>
        obtain ⟨text, behind⟩ := run_cancel valid.solid valid'.solid ends ends' same
        exact ⟨by rw [String.toList_inj.mp text], behind⟩
    | _ => cases form
  | text s => by
    intro j rest rest' valid valid' ends ends' same
    have form := form_eq valid valid' ends ends' same
    cases j with
    | text s' =>
        rw [chars_text, chars_text] at same
        obtain ⟨value, behind⟩ := flatMap_quoteChar_cancel (List.cons.inj same).2
        exact ⟨by rw [String.toList_inj.mp value], behind⟩
    | _ => cases form
  | pair w value => by
    intro j rest rest' valid valid' ends ends' same
    have form := form_eq valid valid' ends ends' same
    cases j with
    | pair w' value' =>
        rw [chars, chars, List.append_assoc, List.append_assoc] at same
        obtain ⟨name, values⟩ := pair_cancel valid.1.unequal valid'.1.unequal same
        obtain ⟨rfl, behind⟩ := chars_cancel value _ _ _ valid.2 valid'.2 ends ends' values
        exact ⟨by rw [String.toList_inj.mp name], behind⟩
    | _ => cases form
  | list [] => by
    intro j rest rest' valid valid' ends ends' same
    have form := form_eq valid valid' ends ends' same
    cases j with
    | list js =>
        cases js with
        | nil => exact ⟨rfl, by simpa [chars] using same⟩
        | cons j js =>
            rw [chars_list_cons] at same
            exact (head?_chars valid'.1 (by rw [← (List.cons.inj same).2]; rfl)).elim
    | _ => cases form
  | list (i :: is) => by
    intro j rest rest' valid valid' ends ends' same
    have form := form_eq valid valid' ends ends' same
    cases j with
    | list js =>
        cases js with
        | nil =>
            rw [chars_list_cons] at same
            exact (head?_chars valid.1 (by rw [(List.cons.inj same).2]; rfl)).elim
        | cons j js =>
            rw [chars_list_cons, chars_list_cons] at same
            obtain ⟨rfl, tails⟩ := chars_cancel i _ _ _ valid.1 valid'.1 (ends_tailChars is _)
              (ends_tailChars js _) (List.cons.inj same).2
            obtain ⟨rfl, behind⟩ := tailChars_cancel is _ _ _ valid.2 valid'.2 tails
            exact ⟨rfl, behind⟩
    | _ => cases form

theorem tailChars_cancel : ∀ (is js : List Item) (rest rest' : List Char),
    itemsValid is → itemsValid js → tailChars is ++ ')' :: rest = tailChars js ++ ')' :: rest' →
      is = js ∧ rest = rest'
  | [] => by
    intro js rest rest' _ _ same
    cases js with
    | nil => exact ⟨rfl, (List.cons.inj same).2⟩
    | cons j js => simp [tailChars] at same
  | i :: is => by
    intro js rest rest' valid valid' same
    cases js with
    | nil => simp [tailChars] at same
    | cons j js =>
        simp only [tailChars, List.cons_append, List.append_assoc, List.cons.injEq,
          true_and] at same
        obtain ⟨rfl, tails⟩ := chars_cancel i _ _ _ valid.1 valid'.1 (ends_tailChars is _)
          (ends_tailChars js _) same
        obtain ⟨rfl, behind⟩ := tailChars_cancel is _ _ _ valid.2 valid'.2 tails
        exact ⟨rfl, behind⟩

end

/-- Items that are written alike are the same. -/
theorem chars_injective (valid : i.Valid) (valid' : j.Valid) (same : i.chars = j.chars) :
    i = j := by
  have written : i.chars ++ [] = j.chars ++ [] := by rw [same]
  exact (chars_cancel i _ _ _ valid valid' ends_nil ends_nil written).1

end Item

end TwoScript
