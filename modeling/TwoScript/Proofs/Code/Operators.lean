import TwoScript.Proofs.Code.Temporaries
import TwoScript.Proofs.Code.ReadBack
import TwoScript.Proofs.Js.Read

/-!
# Operators in generated code

JavaScript reads the code of an expression as the expression: the operators of both
languages have different strengths, and the parentheses that are added make up for it.
`Expr.term` is the expression in JavaScript, without the parentheses of the tree and with
names as they are bound. Selections and templates are operands whose text is kept as it is.
-/

namespace TwoScript

open Layout Js

/-! ## The expression in JavaScript -/

def selectionChoice (level n : Nat) (subject : Expr) (arms : List Arm) : Choice :=
  let m := n + 1 + temporaries subject.visits
  let tests := testsOf (level + 1) m arms
  ⟨tests, otherwiseOf (if tests.isEmpty then level + 1 else level + 2) (temporary n)
    (m + temporaries (valueArmsVisits arms)) arms⟩

def selectionText (width level n : Nat) (subject : Expr) (arms : List Arm) : String :=
  String.ofList ('{' ::
    ((selectionBody level (temporary n) (subject.code level (n + 1))
      (selectionChoice level n subject arms)).chars width ++ ['}']))

mutual

/-- The expression that JavaScript has to read in the code of an expression. -/
def Expr.term (width level n : Nat) : Expr → Term
  | .literal _ value => .literal value
  | .ident _ name => .name (bindingName name)
  | .assign _ op target value =>
    .assign op (target.term width level n)
      (value.term width level (n + temporaries target.visits))
  | .binary _ op left right =>
    .binary op (left.term width level n) (right.term width level (n + temporaries left.visits))
  | .unary _ op operand => .unary op (operand.term width level n)
  | .group _ inner => inner.term width level n
  | .call _ callee args =>
    .call (callee.term width level n) (argsTerm width level (n + temporaries callee.visits) args)
  | .member _ object property => .member (object.term width level n) property
  | .await _ operand => .await (operand.term width level n)
  | .select _ subject arms =>
    let awaits := subject.awaits || armsAwait arms
    let called := Term.call (.function awaits (selectionText width level n subject arms)) []
    if awaits then .await called else called
  | .template s parts => .template (((Expr.template s parts).code level n).render width)

def argsTerm (width level n : Nat) : List Expr → List Term
  | [] => []
  | e :: es => e.term width level n :: argsTerm width level (n + temporaries e.visits) es

end

/-- How tightly JavaScript binds the code of an expression. -/
def Expr.tightness : Expr → Nat
  | .assign _ _ _ _ => 0
  | .binary _ op _ _ => Js.tightness op
  | .unary _ _ _ | .await _ _ => prefixTightness
  | .select s subject arms =>
    if (Expr.select s subject arms).isAwaitedSelection then prefixTightness else postfixTightness
  | _ => postfixTightness

def Expr.FiniteNumber : Expr → Prop
  | .literal _ (.number x) => ∀ negative, x ≠ .infinite negative
  | _ => True

def finiteNumbers : Check :=
  .ofExpr Expr.FiniteNumber

/-! ## Strengths -/

theorem BinaryOp.strength_eq (op : BinaryOp) : op.strength = Js.tightness op + 2 := by
  cases op <;> rfl

theorem Expr.tightness_cases (e : Expr) : e.isAssignment = true ∨ e.isBinary = true ∨
    prefixTightness ≤ e.tightness := by
  cases e with
  | assign _ _ _ _ => exact .inl rfl
  | binary _ _ _ _ => exact .inr (.inl rfl)
  | unary _ _ _ => exact .inr (.inr (Nat.le_refl _))
  | await _ _ => exact .inr (.inr (Nat.le_refl _))
  | select s subject arms =>
      refine .inr (.inr ?_)
      rw [Expr.tightness]
      split
      · exact Nat.le_refl _
      · exact Nat.le_succ _
  | _ => exact .inr (.inr (Nat.le_succ _))

/-- An operand on the left without parentheses binds at least as tightly as the operator. -/
theorem Expr.tightness_left {e : Expr} {op : BinaryOp}
    (h : e.needsParens op.strength false = false) : Js.tightness op ≤ e.tightness := by
  rcases e.tightness_cases with assignment | binary | tight
  · cases e <;> cases assignment
    cases h
  · cases e <;> cases binary
    rename_i op' _ _
    simp only [needsParens, Bool.false_and, Bool.or_false, decide_eq_false_iff_not,
      BinaryOp.strength_eq] at h
    rw [Expr.tightness]
    omega
  · exact Nat.le_trans (Nat.le_of_lt (tightness_lt op)) tight

/-- An operand on the right without parentheses binds tighter than the operator. -/
theorem Expr.tightness_right {e : Expr} {op : BinaryOp}
    (h : e.needsParens op.strength true = false) : Js.tightness op < e.tightness := by
  rcases e.tightness_cases with assignment | binary | tight
  · cases e <;> cases assignment
    cases h
  · cases e <;> cases binary
    rename_i op' _ _
    simp only [needsParens, Bool.true_and, Bool.or_eq_false_iff, decide_eq_false_iff_not,
      beq_eq_false_iff_ne, BinaryOp.strength_eq] at h
    rw [Expr.tightness]
    omega
  · exact Nat.lt_of_lt_of_le (tightness_lt op) tight

/-- An operand without parentheses behind an operator is no operation itself. -/
theorem Expr.tightness_operand {e : Expr} (h : e.needsParens unaryStrength false = false) :
    prefixTightness ≤ e.tightness := by
  rcases e.tightness_cases with assignment | binary | tight
  · cases e <;> cases assignment
    cases h
  · cases e <;> cases binary
    rename_i op _ _
    have low := tightness_lt op
    have value : prefixTightness = 11 := rfl
    simp only [needsParens, Bool.false_and, Bool.or_false, decide_eq_false_iff_not,
      BinaryOp.strength_eq, unaryStrength] at h
    omega
  · exact tight

/-- What a call or a dot can follow without parentheses binds tightest. -/
theorem Expr.tightness_postfix {e : Expr} (ladder : e.isBinary = false ∧ e.isAssignment = false ∧
    e.isPrefixed = false) (h : e.isAwaitedSelection = false) :
    e.tightness = postfixTightness := by
  cases e with
  | binary _ _ _ _ => cases ladder.1
  | assign _ _ _ _ => cases ladder.2.1
  | unary _ _ _ => cases ladder.2.2
  | await _ _ => cases ladder.2.2
  | select _ _ _ => rw [Expr.tightness, if_neg (by simp [h])]
  | _ => rfl

/-! ## What can follow -/

def Expr.Stops (e : Expr) (rest : List Char) : Prop :=
  WordStops rest ∧
    (rest.head? = some '.' → e.tightness = postfixTightness ∧ e.isNumber = false)

theorem Js.NumberStops.stops {rest : List Char} (h : NumberStops rest) (e : Expr) :
    e.Stops rest :=
  ⟨h.1, fun dot => absurd dot h.2⟩

theorem Expr.Stops.numberStops {e : Expr} {rest : List Char} (h : e.Stops rest)
    (loose : e.tightness ≠ postfixTightness) : NumberStops rest :=
  ⟨h.1, fun dot => loose (h.2 dot).1⟩

theorem Expr.stops_paren (e : Expr) (rest : List Char) : e.Stops (')' :: rest) :=
  (NumberStops.cons (by decide) (by decide) rest).stops e

theorem Expr.stops_space (e : Expr) (rest : List Char) : e.Stops (' ' :: rest) :=
  (NumberStops.cons (by decide) (by decide) rest).stops e

/-- JavaScript reads the text as the term, with the strength of the expression. -/
def Expr.Means (e : Expr) (t : Term) (cs : List Char) : Prop :=
  ∃ ts, Lexes e.Stops cs ts ∧ Reads e.tightness t ts

/-! ## Numbers -/

theorem toDigits_leading (n : Nat) {cs : List Char} (h : Nat.toDigits 10 n = '0' :: cs) :
    cs = [] := by
  induction n using Nat.strongRecOn generalizing cs with
  | ind n ih =>
      rcases Nat.lt_or_ge n 10 with small | large
      · rw [Nat.toDigits_of_lt_base small] at h
        exact (List.cons.inj h).2.symm
      · rw [Nat.toDigits_of_base_le (by decide) large] at h
        cases digits : Nat.toDigits 10 (n / 10) with
        | nil => exact absurd digits Nat.toDigits_ne_nil
        | cons d ds =>
            rw [digits, List.cons_append] at h
            obtain ⟨rfl, _⟩ := List.cons.inj h
            have none := ih (n / 10) (by omega) digits
            have value := digitsValue_toDigits (n / 10)
            rw [digits, none] at value
            have zero : digitsValue ['0'] = 0 := by decide
            omega

theorem positional_whole (n places : Nat) : ∃ fraction, (positional n places).toList =
    Nat.toDigits 10 (n / 10 ^ places) ++ pointed fraction := by
  unfold positional
  simp only [Nat.pow_eq]
  split
  · exact ⟨[], by simp [pointed]⟩
  · rename_i some
    rw [List.isEmpty_iff] at some
    refine ⟨(List.dropWhile (· == '0') (paddedDigits (n % 10 ^ places) places).reverse).reverse, ?_⟩
    simp [pointed, some]

/-- The text of a number has no zero in front of another digit. -/
theorem Number.textWith_leading {m : Nat} {e : Int} {whole fraction : List Char}
    (digits : ∀ c ∈ whole, isDigit c = true)
    (h : ((finite false m e).textWith "Infinity").toList = whole ++ pointed fraction) :
    ¬(whole.head? = some '0' ∧ whole.tail ≠ []) := by
  rintro ⟨zero, more⟩
  obtain ⟨tail, rfl⟩ := List.head?_eq_some_iff.mp zero
  simp only [textWith, Bool.false_eq_true, if_false] at h
  split at h
  · have none : tail = [] ∧ pointed fraction = [] := by simpa using h.symm
    exact more none.1
  · obtain ⟨fraction', text⟩ := positional_whole
      (roundest (reach m e).holds (reach m e).value
        ((Nat.toDigits 10 (reach m e).value).length - 1)) (reach m e).places
    rw [magnitudeText, text] at h
    have same := whole_unique digits (fun c hc => isDigit_of_mem_toDigits hc) h.symm
    exact more (toDigits_leading _ same.symm)

theorem Number.Written.lexes {x : Number} (h : x.Written)
    (isFinite : ∀ negative, x ≠ .infinite negative) :
    Lexes NumberStops (x.textWith "Infinity").toList [.number x] := by
  obtain ⟨whole, fraction, text, some, digits, fractional, same⟩ := h.spelled isFinite
  have leading : ¬(whole.head? = Option.some '0' ∧ whole.tail ≠ []) := by
    obtain ⟨ws, fs, rfl⟩ := h
    rcases Number.ofDigits_finite ws fs with infinite | ⟨m, e, value, _⟩
    · exact absurd infinite (isFinite false)
    · rw [value] at text
      exact Number.textWith_leading digits text
  have lexes := Lexes.number some digits fractional leading
  rwa [same, ← text] at lexes

/-! ## Names -/

theorem isJsWord_bindingName {name : String} (h : isName name = true) :
    isJsWord (bindingName name) = true := by
  have word := isWord_of_isName h
  unfold bindingName
  split
  · have inside : ∀ c ∈ name.toList, continuesWord c = true := by
      intro c hc
      rw [continuesWord, isWordPart_of_mem word hc, Bool.true_or]
    have whole : ("$" ++ name).toList = '$' :: name.toList := by simp
    rw [isJsWord, whole]
    simpa [beginsWord] using inside
  · exact isJsWord_of_isWord word

/-- The words that JavaScript takes out of the names are keywords here, or bound with a dollar
sign in front. -/
theorem bindingName_not_mem {name : String} (h : isName name = true) :
    bindingName name ∉ "async" :: keywords := by
  have plain : ∀ k ∈ "async" :: keywords, k.toList.head? ≠ some '$' := by decide
  have covered : ∀ k ∈ "async" :: keywords, k ∈ reservedWords ∨ (keyword? k).isSome = true := by
    decide
  intro found
  unfold bindingName at found
  split at found
  · exact plain _ found (by simp)
  · rename_i free
    rcases covered name found with reserved | taken
    · exact free (List.contains_iff_mem.mpr reserved)
    · simp only [isName, Bool.and_eq_true, Option.isNone_iff_eq_none] at h
      simp [h.2] at taken

/-! ## Leaves -/

theorem Expr.means_literal {s : Span} {value : Literal} (written : value.Written)
    (finite : (Expr.literal s value).FiniteNumber) :
    (Expr.literal s value).Means (.literal value) value.code.toList := by
  cases value with
  | number x =>
      have lexes := Number.Written.lexes written finite
      refine ⟨_, lexes.mono fun rest stops => ?_, .leaf fun _ => rfl⟩
      exact ⟨stops.1, fun dot => nomatch (stops.2 dot).2⟩
  | string text =>
      have lexes := Lexes.string text.toList
      rw [String.ofList_toList] at lexes
      rw [Literal.code, String.toList_ofList]
      exact ⟨_, lexes.of_anything, .leaf fun _ => rfl⟩
  | boolean b =>
      cases b with
      | false =>
          exact ⟨[.word "false"], (Lexes.word (by decide)).mono fun _ stops => stops.1,
            .leaf fun _ => rfl⟩
      | true =>
          exact ⟨[.word "true"], (Lexes.word (by decide)).mono fun _ stops => stops.1,
            .leaf fun _ => rfl⟩
  | null =>
      exact ⟨[.word "null"], (Lexes.word (by decide)).mono fun _ stops => stops.1,
        .leaf fun _ => rfl⟩

theorem Expr.means_ident {s : Span} {name : String} (h : isName name = true) :
    (Expr.ident s name).Means (.name (bindingName name)) (bindingName name).toList :=
  ⟨_, (Lexes.word (isJsWord_bindingName h)).mono fun _ stops => stops.1,
    .leaf (State.word_of_not_mem (bindingName_not_mem h))⟩

/-! ## The first character -/

/-- The code begins with a character that makes no longer punctuator of an operator in front
of it, minus signs apart. -/
def BeginsTerm (l : Layout) : Prop :=
  ∃ c, l.first? = some c ∧ c ≠ '='

theorem first?_append {l : Layout} {c : Char} (h : l.first? = some c) (m : Layout) :
    Layout.first? (l ++ m) = some c := by
  induction l with
  | nil => cases h
  | cons p l ih =>
      cases p with
      | indent level => cases h
      | text s =>
          rw [List.cons_append]
          unfold Layout.first? at h ⊢
          split at h
          · exact h
          · exact ih h

theorem head?_chars {l : Layout} {c : Char} (h : l.first? = some c) (width : Nat) :
    (l.chars width).head? = some c := by
  induction l with
  | nil => cases h
  | cons p l ih =>
      cases p with
      | indent level => cases h
      | text s =>
          rw [chars_text]
          unfold Layout.first? at h
          split at h
          · rename_i chars
            cases h
            rw [chars]
            rfl
          · rename_i chars
            rw [chars]
            exact ih h

theorem first?_text {s : String} {c : Char} (h : s.toList.head? = some c) (l : Layout) :
    Layout.first? (.text s :: l) = some c := by
  obtain ⟨cs, chars⟩ := List.head?_eq_some_iff.mp h
  simp [Layout.first?, chars]

theorem BeginsTerm.text {s : String} {c : Char} (h : s.toList.head? = some c) (other : c ≠ '=')
    (l : Layout) : BeginsTerm (.text s :: l) :=
  ⟨c, first?_text h l, other⟩

theorem BeginsTerm.append {l : Layout} (h : BeginsTerm l) (m : Layout) : BeginsTerm (l ++ m) := by
  obtain ⟨c, first, other⟩ := h
  exact ⟨c, first?_append first m, other⟩

theorem BeginsTerm.parenthesized {l : Layout} (h : BeginsTerm l) (wrapped : Bool) :
    BeginsTerm (Layout.parenthesized wrapped l) := by
  cases wrapped with
  | false => exact h
  | true => exact .text (c := '(') rfl (by decide) _

theorem beginsTerm_literal {s : Span} {value : Literal} (written : value.Written)
    (finite : (Expr.literal s value).FiniteNumber) : BeginsTerm [.text value.code] := by
  cases value with
  | number x =>
      obtain ⟨whole, _, text, some, digits, _⟩ := Number.Written.spelled written finite
      cases whole with
      | nil => exact absurd rfl some
      | cons c cs =>
          refine .text (c := c) (by rw [Literal.code, text]; rfl) ?_ _
          rintro rfl
          exact absurd (digits '=' (by simp)) (by decide)
  | string s =>
      refine .text (c := '"') ?_ (by decide) _
      rw [Literal.code, String.toList_ofList]
      rfl
  | boolean b =>
      cases b with
      | false => exact .text (c := 'f') rfl (by decide) _
      | true => exact .text (c := 't') rfl (by decide) _
  | null => exact .text (c := 'n') rfl (by decide) _

theorem beginsTerm_name {name : String} (h : isName name = true) :
    BeginsTerm [.text (bindingName name)] := by
  have word := isJsWord_bindingName h
  unfold isJsWord at word
  cases chars : (bindingName name).toList with
  | nil => simp [chars] at word
  | cons c cs =>
      simp only [chars, Bool.and_eq_true] at word
      refine .text (c := c) (by rw [chars]; rfl) ?_ _
      rintro rfl
      exact absurd word.1 (by decide)

theorem beginsTerm_unaryCode (op : UnaryOp) (l : Layout) : BeginsTerm (unaryCode op l) := by
  unfold unaryCode
  split
  · exact .text (c := '-') rfl (by decide) _
  · cases op with
    | not => exact .text (c := '!') rfl (by decide) _
    | negate => exact .text (c := '-') rfl (by decide) _
    | bitNot => exact .text (c := '~') rfl (by decide) _

/-- The code of an expression begins with the code of its first leaf or operator. -/
theorem Expr.beginsTerm_code (level n : Nat) : ∀ e : Expr, e.Every grammatical →
    e.Every finiteNumbers → BeginsTerm (e.code level n)
  | .literal _ _, h, finite => beginsTerm_literal h.2 finite
  | .ident _ _, h, _ => beginsTerm_name h.2
  | .assign _ _ target _, h, finite =>
    (Expr.beginsTerm_code level n target h.2.1 finite.2.1).append _
  | .binary _ _ left _, h, finite =>
    ((Expr.beginsTerm_code level n left h.2.1 finite.2.1).parenthesized _).append _
  | .unary _ op operand, _, _ => beginsTerm_unaryCode op _
  | .group _ _, _, _ => .text (c := '(') rfl (by decide) _
  | .call _ callee _, h, finite =>
    (((Expr.beginsTerm_code level n callee h.2.1 finite.2.1).parenthesized _).append _).append _
  | .member _ object _, h, finite =>
    ((Expr.beginsTerm_code level n object h.2 finite.2).parenthesized _).append _
  | .await _ _, _, _ => .text (c := 'a') rfl (by decide) _
  | .select _ subject arms, _, _ => by
    rw [Expr.code]
    cases subject.awaits || armsAwait arms with
    | false => exact .text (c := '(') rfl (by decide) _
    | true => exact .text (c := 'a') rfl (by decide) _
  | .template _ _, _, _ => .text (c := '`') rfl (by decide) _

/-! ## Nodes -/

section

variable {width : Nat} {s : Span} {e : Expr} {t : Term} {l : Layout}

/-- An operand means the same between parentheses, and then binds tightest. -/
theorem Expr.Means.operand (h : e.Means t (l.chars width)) (wrapped : Bool) :
    ∃ ts, Lexes (fun rest => wrapped = true ∨ e.Stops rest)
        ((parenthesized wrapped l).chars width) ts ∧
      Reads (if wrapped then postfixTightness else e.tightness) t ts := by
  obtain ⟨ts, lexes, reads⟩ := h
  cases wrapped with
  | false => exact ⟨ts, lexes.mono fun rest stops => by simpa using stops, reads⟩
  | true =>
      have around := Lexes.opening.append_of_anything
        (lexes.append Lexes.closing fun rest _ => e.stops_paren rest)
      refine ⟨_, Lexes.of_anything ?_, reads.parenthesized⟩
      simpa [Layout.parenthesized] using around

namespace Expr.Means

theorem group (h : e.Means t (l.chars width)) :
    (Expr.group s e).Means t ((parenthesized true l).chars width) := by
  obtain ⟨ts, lexes, reads⟩ := h.operand true
  exact ⟨ts, lexes.mono fun _ _ => .inl rfl, reads⟩

theorem binary {op : BinaryOp} {left right : Expr} {u : Term} {r : Layout}
    (first : left.Means t (l.chars width)) (second : right.Means u (r.chars width)) :
    (Expr.binary s op left right).Means (.binary op t u)
      (Layout.chars width (parenthesized (left.needsParens op.strength false) l
        ++ Piece.text (" " ++ op.symbol ++ " ")
        :: parenthesized (right.needsParens op.strength true) r)) := by
  obtain ⟨ls, leftLexes, leftReads⟩ := first.operand (left.needsParens op.strength false)
  obtain ⟨rs, rightLexes, rightReads⟩ := second.operand (right.needsParens op.strength true)
  have between : Lexes Anything (' ' :: (op.symbol.toList ++ [' '])) [.mark op.symbol] :=
    .spacedMark (by cases op <;> decide) (by cases op <;> decide)
  have loose : (Expr.binary s op left right).tightness ≠ postfixTightness :=
    Nat.ne_of_lt (Nat.lt_succ_of_lt (tightness_lt op))
  refine ⟨ls ++ .mark op.symbol :: rs, ?_, leftReads.binary rightReads ?_ ?_⟩
  · rw [chars_append, chars_text, toList_spaced]
    refine leftLexes.append (between.append_of_anything (rightLexes.mono ?_)) ?_
    · exact fun rest stops => .inr ((stops.numberStops loose).stops right)
    · exact fun rest _ => .inr (left.stops_space _)
  · split
    · exact Nat.le_of_lt (Nat.lt_succ_of_lt (tightness_lt op))
    · rename_i bare
      exact Expr.tightness_left (by simpa using bare)
  · split
    · exact Nat.lt_succ_of_lt (tightness_lt op)
    · rename_i bare
      exact Expr.tightness_right (by simpa using bare)

theorem assign {op : AssignOp} {target value : Expr} {u : Term} {r : Layout}
    (first : target.Means t (l.chars width)) (second : value.Means u (r.chars width))
    (tight : target.tightness = postfixTightness) (assignable : t.isAssignable = true) :
    (Expr.assign s op target value).Means (.assign op t u)
      (Layout.chars width (l ++ Piece.text (" " ++ op.symbol ++ " ") :: r)) := by
  obtain ⟨ls, leftLexes, leftReads⟩ := first
  obtain ⟨rs, rightLexes, rightReads⟩ := second
  rw [tight] at leftReads
  have between : Lexes Anything (' ' :: (op.symbol.toList ++ [' '])) [.mark op.symbol] :=
    .spacedMark (by cases op <;> decide) (by cases op <;> decide)
  refine ⟨ls ++ .mark op.symbol :: rs, ?_, leftReads.assign rightReads assignable⟩
  rw [chars_append, chars_text, toList_spaced]
  refine leftLexes.append (between.append_of_anything (rightLexes.mono ?_)) ?_
  · exact fun rest stops => (stops.numberStops (by rw [Expr.tightness]; decide)).stops value
  · exact fun rest _ => target.stops_space _

/-- An operand behind a word or an operator in front of it. -/
theorem prefixed {operand : Expr} (h : operand.Means t (l.chars width)) : ∃ ts,
    Lexes NumberStops
      ((parenthesized (operand.needsParens unaryStrength false) l).chars width) ts ∧
      ∃ k, prefixTightness ≤ k ∧ Reads k t ts := by
  obtain ⟨ts, lexes, reads⟩ := h.operand (operand.needsParens unaryStrength false)
  refine ⟨ts, lexes.mono fun rest stops => .inr (stops.stops operand), _, ?_, reads⟩
  split
  · exact Nat.le_succ _
  · rename_i bare
    exact Expr.tightness_operand (by simpa using bare)

theorem await {operand : Expr} (h : operand.Means t (l.chars width)) :
    (Expr.await s operand).Means (.await t) (Layout.chars width
      (Piece.text "await " :: parenthesized (operand.needsParens unaryStrength false) l)) := by
  obtain ⟨ts, lexes, k, tight, reads⟩ := h.prefixed
  have word : Lexes Anything ("await".toList ++ [' ']) [.word "await"] := .spacedWord (by decide)
  have text : "await ".toList = "await".toList ++ [' '] := by decide
  refine ⟨.word "await" :: ts, ?_, reads.await tight⟩
  rw [chars_text, text]
  exact word.append_of_anything
    (lexes.mono fun rest stops => stops.numberStops (Nat.ne_of_lt (Nat.lt_succ_self _)))

theorem unary {op : UnaryOp} {operand : Expr} (h : operand.Means t (l.chars width))
    (begins : BeginsTerm l) : (Expr.unary s op operand).Means (.unary op t) (Layout.chars width
      (unaryCode op (parenthesized (operand.needsParens unaryStrength false) l))) := by
  obtain ⟨ts, lexes, k, tight, reads⟩ := h.prefixed
  obtain ⟨c, first, other⟩ := begins.parenthesized (operand.needsParens unaryStrength false)
  generalize parenthesized (operand.needsParens unaryStrength false) l = inner at lexes first ⊢
  have behind : Lexes (Expr.unary s op operand).Stops (inner.chars width) ts :=
    lexes.mono fun rest stops => stops.numberStops (Nat.ne_of_lt (Nat.lt_succ_self _))
  have mem : op.symbol ∈ marks := by cases op <;> decide
  refine ⟨.mark op.symbol :: ts, ?_, reads.unary tight⟩
  unfold unaryCode
  split
  · -- The blank keeps two minus signs from being read as one punctuator.
    rename_i negate
    obtain ⟨rfl, _⟩ := negate
    have minus : Lexes Anything ("-".toList ++ [' ']) [.mark "-"] :=
      (Lexes.mark mem).append (Lexes.blank (c := ' ') (by decide)) fun rest _ d next => by
        cases next
        decide
    have text : "- ".toList = "-".toList ++ [' '] := by decide
    rw [chars_text, text]
    exact minus.append_of_anything behind
  · rename_i apart
    have minus : op = .negate → c ≠ '-' := by
      rintro rfl rfl
      exact apart ⟨rfl, first⟩
    have alone : c ∉ continuations op.symbol := by
      cases op with
      | not => simp [UnaryOp.symbol, continuations_not, other]
      | negate => simp [UnaryOp.symbol, continuations_minus, other, minus rfl]
      | bitNot => simp [UnaryOp.symbol, continuations_tilde]
    rw [chars_text]
    refine (Lexes.mark mem).append behind fun rest _ d next => ?_
    obtain ⟨more, chars⟩ := List.head?_eq_some_iff.mp (head?_chars first width)
    rw [chars] at next
    cases next
    exact alone

/-- What a call or a dot follows is complete, by itself or between parentheses. -/
theorem receiver (h : e.Means t (l.chars width)) {wrapped : Bool}
    (tight : wrapped = false → e.tightness = postfixTightness) :
    ∃ ts, Lexes (fun rest => wrapped = true ∨ e.Stops rest)
      ((parenthesized wrapped l).chars width) ts ∧ Reads postfixTightness t ts := by
  obtain ⟨ts, lexes, reads⟩ := h.operand wrapped
  refine ⟨ts, lexes, ?_⟩
  cases wrapped with
  | false => rwa [if_neg (by decide), tight rfl] at reads
  | true => exact reads

theorem call {callee : Expr} {args : List Expr} {m : Layout} {us : List Term} {ts : List Js.Token}
    (first : callee.Means t (l.chars width)) (ladder : callee.isBinary = false ∧
      callee.isAssignment = false ∧ callee.isPrefixed = false)
    (lexes : Lexes NumberStops (m.chars width) ts) (reads : Reads.Arguments us ts) :
    (Expr.call s callee args).Means (.call t us) (Layout.chars width
      (parenthesized callee.isAwaitedSelection l ++ Piece.text "(" :: m ++ [Piece.text ")"])) := by
  obtain ⟨ls, leftLexes, leftReads⟩ := first.receiver (Expr.tightness_postfix ladder)
  have inside := Lexes.opening.append_of_anything (lexes.append Lexes.closing fun rest _ =>
    NumberStops.cons (by decide) (by decide) rest)
  have behind : Lexes (Expr.call s callee args).Stops _ _ := inside.of_anything
  refine ⟨_, ?_, leftReads.call reads⟩
  have whole := leftLexes.append behind fun rest _ =>
    .inr ((NumberStops.cons (by decide) (by decide) _).stops callee)
  simpa using whole

theorem member {object : Expr} {property : String} (h : object.Means t (l.chars width))
    (ladder : object.isBinary = false ∧ object.isAssignment = false ∧ object.isPrefixed = false)
    (word : isWord property = true) :
    (Expr.member s object property).Means (.member t property) (Layout.chars width
      (parenthesized (object.isAwaitedSelection || object.isNumber) l
        ++ [Piece.text ("." ++ property)])) := by
  have bare : (object.isAwaitedSelection || object.isNumber) = false →
      object.tightness = postfixTightness ∧ object.isNumber = false := by
    intro none
    rw [Bool.or_eq_false_iff] at none
    exact ⟨Expr.tightness_postfix ladder none.1, none.2⟩
  obtain ⟨ts, lexes, reads⟩ := h.receiver fun none => (bare none).1
  have behind : Lexes (Expr.member s object property).Stops _ _ :=
    (Lexes.property word).mono fun rest stops => stops.1
  refine ⟨_, ?_, reads.member property⟩
  have whole := lexes.append behind fun rest _ => by
    by_cases wrapped : (object.isAwaitedSelection || object.isNumber) = true
    · exact .inl wrapped
    · -- Behind a number without parentheses the dot would be read as its point.
      exact .inr ⟨WordStops.cons (by decide) _, fun _ => bare (by simpa using wrapped)⟩
  simpa using whole

end Expr.Means

/-! ## Selections and templates -/

/-- The tokens of the function that a selection becomes. -/
theorem lexes_selection {body : List Char} (awaits : Bool) (balanced : Js.Balanced body) :
    Lexes Anything ((if awaits then "await (async () => " else "(() => ").toList
        ++ ('{' :: (body ++ ['}'])) ++ ")()".toList)
      (if awaits then
        Js.Token.word "await" :: Js.Token.mark "(" :: Js.Token.word "async"
          :: calledTokens (String.ofList ('{' :: (body ++ ['}'])))
      else Js.Token.mark "(" :: calledTokens (String.ofList ('{' :: (body ++ ['}'])))) := by
  have await : Lexes Anything ("await".toList ++ [' ']) [.word "await"] := .spacedWord (by decide)
  have async : Lexes Anything ("async".toList ++ [' ']) [.word "async"] := .spacedWord (by decide)
  have arrow : Lexes Anything (' ' :: ("=>".toList ++ [' '])) [.mark "=>"] :=
    .spacedMark (by decide) (by decide)
  have called := Lexes.opening.append_of_anything (Lexes.closing.append_of_anything
    (arrow.append_of_anything ((Lexes.block balanced).append_of_anything
      (Lexes.closing.append_of_anything (Lexes.opening.append_of_anything Lexes.closing)))))
  cases awaits with
  | false => simpa [calledTokens] using Lexes.opening.append_of_anything called
  | true =>
      simpa [calledTokens] using await.append_of_anything
        (Lexes.opening.append_of_anything (async.append_of_anything called))

theorem Expr.code_select (level n : Nat) (s : Span) (subject : Expr) (arms : List Arm) :
    (Expr.select s subject arms).code level n = selectionCode level (temporary n)
      (subject.awaits || armsAwait arms) (subject.code level (n + 1))
      (selectionChoice level n subject arms) := by
  rw [Expr.code, selectionChoice]

/-- The body of the function that a selection becomes closes every bracket that it opens. -/
theorem Expr.balanced_selectionBody (width level n : Nat) {subject : Expr} {arms : List Arm}
    (h : (Expr.select s subject arms).Every grammatical) :
    Js.Balanced ((selectionBody level (temporary n) (subject.code level (n + 1))
      (selectionChoice level n subject arms)).chars width) := by
  have named := temporary_temporary n
  have inner : Js.Balanced ((subject.code level (n + 1)).chars width) :=
    (Expr.lowers_code level (n + 1) subject h.2.1).moves Calm.nil
  have tests : TestsLower width
      (testsOf (level + 1) (n + 1 + temporaries subject.visits) arms) _ :=
    testsLower_code _ _ arms h.2.2
  have last : Tracks Fresh Calm [] [] _ _ (Layout.chars width (otherwiseOf
      (if (testsOf (level + 1) (n + 1 + temporaries subject.visits) arms).isEmpty then level + 1
        else level + 2) (temporary n)
      (n + 1 + temporaries subject.visits + temporaries (valueArmsVisits arms)) arms)) :=
    otherwiseTracks_code _ n _ arms h.2.2
  have chosen := Choice.tracks_code (c := ⟨_, _⟩) (level + 1) named tests last
  exact .selectionBody level named inner (chosen.moves rfl)

theorem Expr.means_select (level n : Nat) {subject : Expr} {arms : List Arm}
    (h : (Expr.select s subject arms).Every grammatical) :
    (Expr.select s subject arms).Means ((Expr.select s subject arms).term width level n)
      (((Expr.select s subject arms).code level n).chars width) := by
  have balanced := Expr.balanced_selectionBody width level n h
  have awaited : (Expr.select s subject arms).isAwaitedSelection =
      (subject.awaits || armsAwait arms) := rfl
  rw [Expr.Means, Expr.tightness, Expr.term, Expr.code_select, chars_selectionCode, awaited]
  cases subject.awaits || armsAwait arms with
  | false =>
      exact ⟨_, (lexes_selection false balanced).of_anything, .calledFunction false _⟩
  | true =>
      exact ⟨_, (lexes_selection true balanced).of_anything,
        (Reads.calledFunction true _).await (Nat.le_succ _)⟩

theorem Expr.means_template (level n : Nat) {parts : List Part}
    (h : (Expr.template s parts).Every grammatical) :
    (Expr.template s parts).Means ((Expr.template s parts).term width level n)
      (((Expr.template s parts).code level n).chars width) := by
  have lowers : LowersInTemplate (Part.beginsWithText parts) (lowered n (partsSelections parts))
      ((partsCode level n parts).chars width) := partsLower_code level n parts h.2 h.1.2
  obtain ⟨u, word, recent, inside, _, ran⟩ := lowers ⟨[.template], none⟩ [] [] [] [] []
    ⟨rfl, .inl rfl⟩ (fun _ => rfl) Calm.nil (by simp [Opened])
  have walked := Tracker.walk_of_run ran
  have whole : ((Expr.template s parts).code level n).chars width =
      '`' :: ((partsCode level n parts).chars width ++ ['`']) := by
    simp [Expr.code]
  have lexes := Lexes.template walked inside
  rw [← whole, Layout.chars, String.ofList_toList] at lexes
  exact ⟨_, lexes.of_anything, .leaf fun _ => rfl⟩

/-! ## Expressions -/

theorem Expr.isAssignable_term {target : Expr} (width level n : Nat)
    (h : target.isAssignable = true) :
    (target.term width level n).isAssignable = true ∧ target.tightness = postfixTightness := by
  cases target with
  | ident _ _ => exact ⟨rfl, rfl⟩
  | member _ _ _ => exact ⟨rfl, rfl⟩
  | _ => cases h

mutual

theorem Expr.means_code (level n : Nat) : ∀ e : Expr, e.Every grammatical →
    e.Every finiteNumbers → e.Means (e.term width level n) ((e.code level n).chars width)
  | .literal _ _, h, finite => by
    simpa [Expr.code, Expr.term] using Expr.means_literal h.2 finite
  | .ident _ _, h, _ => by
    simpa [Expr.code, Expr.term] using Expr.means_ident h.2
  | .assign _ _ target value, h, finite => by
    obtain ⟨assignable, tight⟩ := Expr.isAssignable_term width level n h.1.1
    exact .assign (Expr.means_code level n target h.2.1 finite.2.1)
      (Expr.means_code level _ value h.2.2 finite.2.2) tight assignable
  | .binary _ _ left right, h, finite =>
    .binary (Expr.means_code level n left h.2.1 finite.2.1)
      (Expr.means_code level _ right h.2.2 finite.2.2)
  | .unary _ _ operand, h, finite =>
    .unary (Expr.means_code level n operand h.2 finite.2)
      (Expr.beginsTerm_code level n operand h.2 finite.2)
  | .group _ inner, h, finite => .group (Expr.means_code level n inner h.2 finite.2)
  | .call _ callee args, h, finite => by
    obtain ⟨ts, lexes, reads⟩ :=
      argsMean_code level (n + temporaries callee.visits) args h.2.2 finite.2.2
    exact .call (Expr.means_code level n callee h.2.1 finite.2.1) h.1.1 lexes reads
  | .member _ object _, h, finite =>
    .member (Expr.means_code level n object h.2 finite.2) h.1.1 h.1.2
  | .await _ operand, h, finite => .await (Expr.means_code level n operand h.2 finite.2)
  | .select _ _ _, h, _ => Expr.means_select level n h
  | .template _ _, h, _ => Expr.means_template level n h

theorem argsMean_code (level n : Nat) : ∀ args : List Expr, argsEvery grammatical args →
    argsEvery finiteNumbers args →
    ∃ ts, Lexes NumberStops ((argsCode level n args).chars width) ts ∧
      Reads.Arguments (argsTerm width level n args) ts
  | [], _, _ => ⟨[], Lexes.nil, Reads.noArguments⟩
  | [e], h, finite => by
    obtain ⟨ts, lexes, reads⟩ := Expr.means_code level n e h.1 finite.1
    exact ⟨ts, lexes.mono fun rest stops => stops.stops e, reads.lastArgument⟩
  | e :: f :: es, h, finite => by
    obtain ⟨ls, lexes, reads⟩ := Expr.means_code level n e h.1 finite.1
    obtain ⟨rs, others, rest⟩ :=
      argsMean_code level (n + temporaries e.visits) (f :: es) h.2 finite.2
    have comma : Lexes Anything ",".toList [.mark ","] := .finalMark (by decide) (by decide)
    have between := comma.append_of_anything (Lexes.blank (c := ' ') (by decide))
    refine ⟨_, ?_, reads.nextArgument rest⟩
    rw [argsCode, chars_append, chars_text]
    refine lexes.append (between.append_of_anything others) fun _ _ => ?_
    exact (NumberStops.cons (by decide) (by decide) _).stops e

end

end

/-- JavaScript reads the code of every expression that was read, if its numbers are finite, as
the expression: with the same operands for the same operators. -/
theorem expression_code_read {room : Nat} {c c' : Cursor} {e : Expr} (lexed : c.Lexed)
    (h : (Grammar.ofRoom room).expression .lowest c = .ok e c') (finite : e.Every finiteNumbers)
    (width level n : Nat) :
    Js.read ((e.code level n).render width) = some (e.term width level n) := by
  obtain ⟨_, taken, _⟩ := (Grammar.sound_ofRoom room).expression lexed (by decide) h
  obtain ⟨ts, lexes, reads⟩ : e.Means (e.term width level n) ((e.code level n).chars width) :=
    Expr.means_code level n e taken.every finite
  have tokens : Js.tokens ((e.code level n).chars width) = ts := by
    have whole := lexes [] (NumberStops.nil.stops e)
    rwa [List.append_nil, Js.tokens, List.append_nil] at whole
  rw [Js.read, ← Layout.chars, tokens]
  exact reads.result

/-- A comparison that is shifted, two minus signs, a reserved word and the member of a number,
with the parentheses, blanks and names that they have in code. -/
theorem expression_code_read_shift :
    Js.read "f((x < y) << z, - -$new).a = (0).b" =
      some (.assign .assign (.member (.call (.name "f")
        [.binary .shiftLeft (.binary .less (.name "x") (.name "y")) (.name "z"),
          .unary .negate (.unary .negate (.name "$new"))]) "a")
        (.member (.literal (.number (.finite false 0 (-1074)))) "b")) := by
  obtain ⟨_, _, lexed⟩ :=
    Cursor.ofTokens_tokensFrom .first "f(x < y << z, - -new).a = 0.b".toList
  have tokens : tokensFrom .first "f(x < y << z, - -new).a = 0.b".toList =
      [⟨.identifier, "f", ⟨0, 1, 1⟩, none⟩, ⟨.leftParen, "(", ⟨1, 2, 1⟩, none⟩,
        ⟨.identifier, "x", ⟨2, 3, 1⟩, none⟩, ⟨.less, "<", ⟨4, 5, 1⟩, none⟩,
        ⟨.identifier, "y", ⟨6, 7, 1⟩, none⟩, ⟨.shiftLeft, "<<", ⟨8, 10, 1⟩, none⟩,
        ⟨.identifier, "z", ⟨11, 12, 1⟩, none⟩, ⟨.comma, ",", ⟨12, 13, 1⟩, none⟩,
        ⟨.minus, "-", ⟨14, 15, 1⟩, none⟩, ⟨.minus, "-", ⟨16, 17, 1⟩, none⟩,
        ⟨.identifier, "new", ⟨17, 20, 1⟩, none⟩, ⟨.rightParen, ")", ⟨20, 21, 1⟩, none⟩,
        ⟨.dot, ".", ⟨21, 22, 1⟩, none⟩, ⟨.identifier, "a", ⟨22, 23, 1⟩, none⟩,
        ⟨.equal, "=", ⟨24, 25, 1⟩, none⟩,
        ⟨.number, "0", ⟨26, 27, 1⟩, some (.number (.finite false 0 (-1074)))⟩,
        ⟨.dot, ".", ⟨27, 28, 1⟩, none⟩, ⟨.identifier, "b", ⟨28, 29, 1⟩, none⟩,
        endToken ⟨29, 1⟩] := by
    decide +kernel
  have run : (Grammar.ofRoom 9).expression .lowest
      (Cursor.ofTokens (tokensFrom .first "f(x < y << z, - -new).a = 0.b".toList)) =
      .ok (.assign ⟨0, 29, 1⟩ .assign (.member ⟨0, 23, 1⟩ (.call ⟨0, 21, 1⟩ (.ident ⟨0, 1, 1⟩ "f")
        [.binary ⟨2, 12, 1⟩ .shiftLeft
          (.binary ⟨2, 7, 1⟩ .less (.ident ⟨2, 3, 1⟩ "x") (.ident ⟨6, 7, 1⟩ "y"))
          (.ident ⟨11, 12, 1⟩ "z"),
          .unary ⟨14, 20, 1⟩ .negate (.unary ⟨16, 20, 1⟩ .negate (.ident ⟨17, 20, 1⟩ "new"))]) "a")
        (.member ⟨26, 29, 1⟩ (.literal ⟨26, 27, 1⟩ (.number (.finite false 0 (-1074)))) "b"))
        ⟨some ⟨.identifier, "b", ⟨28, 29, 1⟩, none⟩, [], ⟨.endOfFile, "", ⟨29, 29, 1⟩, none⟩,
          by simp, rfl⟩ := by
    rw [tokens]
    with_unfolding_all rfl
  have read := expression_code_read lexed run
    (by simp [Expr.Every, argsEvery, finiteNumbers, Check.ofExpr, Expr.FiniteNumber]) 2 0 0
  refine Eq.trans (congrArg Js.read ?_) (read.trans ?_)
  · decide +kernel
  · rfl

end TwoScript
