import TwoScript.Proofs.Code.Regroup
import TwoScript.Proofs.Token.Mark
import TwoScript.Proofs.Token.TemplateBody

/-!
# Expressions in generated code

The code of an expression is read as the tokens of its regrouping, in front of
everything that can follow an expression. The condition `spelled` says for which trees:
names mean the same in code, numbers are written with digits, and there is no
selection and no template inside another one.
-/

namespace TwoScript

open Layout

def Layout.chars (width : Nat) (l : Layout) : List Char :=
  (l.render width).toList

section

variable {width : Nat}

@[simp] theorem chars_nil : Layout.chars width [] = [] := by
  simp [Layout.chars]

@[simp] theorem chars_text (s : String) (l : Layout) :
    Layout.chars width (.text s :: l) = s.toList ++ Layout.chars width l := by
  simp [Layout.chars, Piece.render]

@[simp] theorem chars_indent (level : Nat) (l : Layout) :
    Layout.chars width (.indent level :: l) =
      List.replicate (level * width) ' ' ++ Layout.chars width l := by
  simp [Layout.chars, Piece.render]

@[simp] theorem chars_append (a b : Layout) :
    Layout.chars width (a ++ b) = Layout.chars width a ++ Layout.chars width b := by
  simp [Layout.chars]

end

/-! ## Which trees -/

/-- A number whose text is digits that are read as the number. -/
def Number.Spelled (x : Number) : Prop :=
  ∃ whole fraction, (x.textWith "Infinity").toList = whole ++ pointed fraction ∧ whole ≠ [] ∧
    (∀ c ∈ whole, isDigit c = true) ∧ (∀ c ∈ fraction, isDigit c = true) ∧
    ofDigits whole fraction = x

/-- A name that is bound under itself. -/
def isFreeName (name : String) : Bool :=
  isName name && !reservedWords.contains name

def Expr.isTemplate : Expr → Bool
  | .template _ _ => true
  | _ => false

def untemplated : Check :=
  .ofExpr fun e => e.isTemplate = false

namespace Expr

/-- What the words and values of a single node have to be for its code to be read back. -/
def Spelled : Expr → Prop
  | literal _ (.number x) => x.Spelled
  | ident _ name => isFreeName name = true
  | member _ _ property => isWord property = true
  | select _ _ _ => False
  | template _ parts =>
    Part.Apart parts ∧ partsEvery untemplated parts
  | _ => True

end Expr

def Parameter.Spelled (p : Parameter) : Prop :=
  isFreeName p.name = true

/-- The names that a statement binds mean the same in code. Names of methods are not
bound. -/
def Statement.Spelled : Statement → Prop
  | function _ routine => isFreeName routine.name = true ∧ ∀ p ∈ routine.params, p.Spelled
  | classDecl _ name methods => isFreeName name = true ∧ ∀ m ∈ methods, ∀ p ∈ m.params, p.Spelled
  | declare _ _ name _ _ => isFreeName name = true
  | attempt _ _ handler _ =>
    ∀ h, handler = some h → ∀ name, h.binding = some name → isFreeName name = true
  | _ => True

def spelled : Check where
  expr e := e.Laddered ∧ e.Spelled
  pattern _ := True
  statement s := s.Formed ∧ s.Spelled

/-! ## What can follow an expression -/

/-- A text that can follow the code of an expression. Only what ends in a bracket, a
quote or a word can stand in front of a dot. -/
def Expr.Follows (e : Expr) (rest : List Char) : Prop :=
  WordEnds rest ∧ (rest.head? = some '.' → e.tail = .postfixed ∧ e.isNumber = false)

theorem NumberEnds.follows {rest : List Char} (h : NumberEnds rest) (e : Expr) :
    e.Follows rest :=
  ⟨h.1, fun dot => absurd dot h.2⟩

theorem Expr.Follows.numberEnds {e : Expr} {rest : List Char} (h : e.Follows rest)
    (loose : e.tail ≠ .postfixed) : NumberEnds rest :=
  ⟨h.1, fun dot => loose (h.2 dot).1⟩

def Expr.ReadAs (e : Expr) (cs : List Char) : Prop :=
  ∃ ts, e.regroup.Yields ts ∧ Spells e.Follows cs ts

/-! ## Leaves -/

theorem bindingName_of_isFreeName {name : String} (h : isFreeName name = true) :
    bindingName name = name := by
  simp only [isFreeName, Bool.and_eq_true, Bool.not_eq_true'] at h
  rw [bindingName, h.2]
  rfl

theorem isName_of_isFreeName {name : String} (h : isFreeName name = true) : isName name = true := by
  simp only [isFreeName, Bool.and_eq_true] at h
  exact h.1

/-- A free name is read as an identifier. -/
theorem Spells.name {name : String} (h : isFreeName name = true) :
    ∃ t : Shape, t.kind = .identifier ∧ t.text = name ∧
      Spells WordEnds (bindingName name).toList [t] := by
  have named := isName_of_isFreeName h
  refine ⟨wordShape name, wordShape_kind_of_isName named, rfl, ?_⟩
  rw [bindingName_of_isFreeName h]
  exact Spells.word name (isWord_of_isName named)

theorem wordShape_isProperty (word : String) : (wordShape word).isProperty = true := by
  rw [Shape.isProperty_iff, wordShape, wordMeaning_kind]
  cases found : keyword? word with
  | none => exact .inl rfl
  | some kind => exact .inr rfl

theorem Expr.readAs_literal {s : Span} {value : Literal} (h : (Expr.literal s value).Spelled) :
    (Expr.literal s value).ReadAs value.code.toList := by
  cases value with
  | number x =>
      obtain ⟨whole, fraction, text, some, digits, fractional, same⟩ := h
      have written := Spells.number some digits fractional
      rw [same, ← text] at written
      refine ⟨_, ⟨_, rfl, rfl, rfl⟩, written.mono fun rest follow => ?_⟩
      exact ⟨follow.1, fun dot => nomatch (follow.2 dot).2⟩
  | string text =>
      have written := Spells.string text.toList
      rw [String.ofList_toList] at written
      rw [Literal.code, String.toList_ofList]
      exact ⟨_, ⟨⟨.string, _, some (.string text)⟩, rfl, rfl, rfl⟩, written.of_anything⟩
  | boolean b =>
      cases b with
      | false =>
          exact ⟨[wordShape "false"], ⟨_, rfl, rfl, rfl⟩,
            (Spells.word "false" (by decide)).mono fun _ follow => follow.1⟩
      | true =>
          exact ⟨[wordShape "true"], ⟨_, rfl, rfl, rfl⟩,
            (Spells.word "true" (by decide)).mono fun _ follow => follow.1⟩
  | null =>
      exact ⟨[wordShape "null"], ⟨_, rfl, rfl, rfl⟩,
        (Spells.word "null" (by decide)).mono fun _ follow => follow.1⟩

/-! ## Nodes -/

section

variable {width : Nat}

theorem toList_spaced (s : String) : (" " ++ s ++ " ").toList = ' ' :: (s.toList ++ [' ']) := by
  simp

/-- What is read between parentheses is enclosed by them. -/
theorem Spells.parenthesized {f : List Char → Prop} {cs : List Char} {ts : List Shape}
    {inside : List Shape → Prop} (h : inside ts) (spells : Spells f cs ts)
    (fits : ∀ rest, f (')' :: rest)) :
    ∃ us, Enclosed .leftParen .rightParen inside us ∧ Spells Anything ('(' :: (cs ++ [')'])) us := by
  have opens := Spells.marks [.symbol '('] (by decide)
  have closes := Spells.marks [.symbol ')'] (by decide)
  exact ⟨_, ⟨_, ts, _, rfl, rfl, h, rfl⟩,
    opens.append_of_anything (spells.append closes fun rest _ => fits rest)⟩

theorem Expr.follows_paren (e : Expr) (rest : List Char) : e.Follows (')' :: rest) :=
  (NumberEnds.cons (by decide) (by decide) rest).follows e

theorem Expr.follows_space (e : Expr) (rest : List Char) : e.Follows (' ' :: rest) :=
  (NumberEnds.cons (by decide) (by decide) rest).follows e

/-- An operand is read as its regrouping, with the parentheses around it. -/
theorem Expr.ReadAs.operand {e : Expr} {l : Layout} (h : e.ReadAs (l.chars width))
    (wrapped : Bool) : ∃ us, (e.regroup.groupedIf wrapped).Yields us ∧
      Spells (fun rest => wrapped = true ∨ e.Follows rest)
        ((parenthesized wrapped l).chars width) us := by
  obtain ⟨ts, yields, spells⟩ := h
  cases wrapped with
  | false => exact ⟨ts, yields, spells.mono fun rest follow => by simpa using follow⟩
  | true =>
      obtain ⟨us, enclosed, around⟩ := Spells.parenthesized yields spells e.follows_paren
      refine ⟨us, enclosed, Spells.of_anything ?_⟩
      simpa [parenthesized] using around

/-- An expression begins with no character that would make a longer symbol of an operator in
front of it. -/
theorem first_of_beginsExpr {cs : List Char} {t : Shape} {ts : List Shape}
    (h : shapes cs = t :: ts) (begins : t.kind.beginsExpr = true) {c : Char}
    (first : cs.head? = some c) : c ≠ '=' ∧ c ≠ '>' := by
  obtain ⟨more, rfl⟩ := List.head?_eq_some_iff.mp first
  have symbol : ∀ kind, symbol? c = some kind → beginsLexeme c more = true →
      (Lexeme.symbol c more).kind.beginsExpr = true := by
    intro kind found lexeme
    rw [shapes_cons lexeme, read_symbol more found] at h
    rw [← (List.cons.inj h).1] at begins
    exact begins
  have longer : ∀ d, (symbolPair? c d).any Kind.beginsExpr = false := by
    intro d
    unfold symbolPair?
    split <;> rfl
  constructor
  · rintro rfl
    have begins := symbol _ rfl rfl
    unfold Lexeme.symbol at begins
    cases next : more.head?.bind (symbolPair? '=') with
    | none => simp [next, symbol?, Kind.beginsExpr] at begins
    | some kind =>
        obtain ⟨d, _, pair⟩ := Option.bind_eq_some_iff.mp next
        have none := longer d
        rw [pair, Option.any_some] at none
        simp [next, none] at begins
  · rintro rfl
    have begins := symbol _ rfl rfl
    unfold Lexeme.symbol at begins
    cases next : more.head?.bind (symbolPair? '>') with
    | none => simp [next, symbol?, Kind.beginsExpr] at begins
    | some kind =>
        obtain ⟨d, _, pair⟩ := Option.bind_eq_some_iff.mp next
        have none := longer d
        rw [pair, Option.any_some] at none
        simp [next, none] at begins

/-- A text that makes no longer symbol of an operator in front of it. -/
def OperandBegins (rest : List Char) : Prop :=
  ∀ c, rest.head? = some c → c ≠ '=' ∧ c ≠ '>'

theorem Spells.unaryOp (op : UnaryOp) : ∃ t : Shape, UnaryOp.ofKind? t.kind = some op ∧
    Spells OperandBegins op.symbol.toList [t] := by
  have alone : ∀ c, c = '!' ∨ c = '-' ∨ c = '~' → ∀ rest, OperandBegins rest →
      ∀ d, rest.head? = some d → symbolPair? c d = none := by
    rintro c (rfl | rfl | rfl) rest begins d next
    all_goals
      obtain ⟨equal, greater⟩ := begins d next
      unfold symbolPair?
      split <;> simp_all
  have read : ∀ c kind, c = '!' ∨ c = '-' ∨ c = '~' → symbol? c = some kind →
      Spells OperandBegins [c] [⟨kind, String.ofList [c], none⟩] := by
    intro c kind operator found rest begins
    refine shapes_symbol found (alone c operator rest begins) ?_
    rintro ⟨rfl, _⟩
    simp at operator
  cases op with
  | not => exact ⟨_, rfl, read '!' .bang (by simp) rfl⟩
  | negate => exact ⟨_, rfl, read '-' .minus (by simp) rfl⟩
  | bitNot => exact ⟨_, rfl, read '~' .tilde (by simp) rfl⟩

namespace Expr.ReadAs

variable {s : Span} {e : Expr} {l : Layout}

theorem group (h : e.ReadAs (l.chars width)) :
    (Expr.group s e).ReadAs ((parenthesized true l).chars width) := by
  obtain ⟨us, yields, spells⟩ := h.operand true
  exact ⟨us, yields, spells.mono fun _ _ => .inl rfl⟩

theorem binary {op : BinaryOp} {left right : Expr} {l r : Layout}
    (first : left.ReadAs (l.chars width)) (second : right.ReadAs (r.chars width)) :
    (Expr.binary s op left right).ReadAs
      (Layout.chars width (parenthesized (left.needsParens op.strength false) l
        ++ .text (" " ++ op.symbol ++ " ")
        :: parenthesized (right.needsParens op.strength true) r)) := by
  obtain ⟨ls, leftYields, leftSpells⟩ := first.operand (left.needsParens op.strength false)
  obtain ⟨rs, rightYields, rightSpells⟩ := second.operand (right.needsParens op.strength true)
  obtain ⟨t, operator, between⟩ := Spells.binaryOp op
  refine ⟨ls ++ t :: rs, ⟨ls, t, rs, rfl, leftYields, operator, rightYields⟩, ?_⟩
  have loose : (Expr.binary s op left right).tail ≠ .postfixed := by
    cases op <;> simp [Expr.tail, BinaryOp.precedence]
  rw [chars_append, chars_text, toList_spaced]
  refine leftSpells.append (between.append_of_anything (rightSpells.mono ?_)) ?_
  · exact fun rest follow => .inr ((follow.numberEnds loose).follows right)
  · exact fun rest _ => .inr (left.follows_space _)

theorem assign {op : AssignOp} {target value : Expr} {l r : Layout}
    (first : target.ReadAs (l.chars width)) (second : value.ReadAs (r.chars width)) :
    (Expr.assign s op target value).ReadAs
      (Layout.chars width (l ++ .text (" " ++ op.symbol ++ " ") :: r)) := by
  obtain ⟨ls, leftYields, leftSpells⟩ := first
  obtain ⟨rs, rightYields, rightSpells⟩ := second
  obtain ⟨t, operator, between⟩ := Spells.assignOp op
  refine ⟨ls ++ t :: rs, ⟨ls, t, rs, rfl, leftYields, operator, rightYields⟩, ?_⟩
  rw [chars_append, chars_text, toList_spaced]
  refine leftSpells.append (between.append_of_anything (rightSpells.mono ?_)) ?_
  · exact fun rest follow => (follow.numberEnds (by simp [Expr.tail])).follows value
  · exact fun rest _ => target.follows_space _

theorem await {operand : Expr} (h : operand.ReadAs (l.chars width)) :
    (Expr.await s operand).ReadAs (Layout.chars width
      (.text "await " :: parenthesized (operand.needsParens unaryStrength false) l)) := by
  obtain ⟨rs, yields, spells⟩ := h.operand (operand.needsParens unaryStrength false)
  have word := Spells.marks [.word "await", .blank ' '] (by decide)
  refine ⟨wordShape "await" :: rs, ⟨_, rs, rfl, rfl, yields⟩, ?_⟩
  rw [chars_text]
  refine word.append_of_anything (spells.mono fun rest follow => .inr ?_)
  exact (follow.numberEnds (by simp [Expr.tail])).follows operand

theorem unary {op : UnaryOp} {operand : Expr} (h : operand.ReadAs (l.chars width)) :
    (Expr.unary s op operand).ReadAs (Layout.chars width
      (unaryCode op (parenthesized (operand.needsParens unaryStrength false) l))) := by
  obtain ⟨rs, yields, spells⟩ := h.operand (operand.needsParens unaryStrength false)
  generalize parenthesized (operand.needsParens unaryStrength false) l = inner at spells ⊢
  have whole : shapes (inner.chars width) = rs := by
    simpa using spells [] (.inr (NumberEnds.nil.follows operand))
  obtain ⟨t, ts, begin, begins⟩ := Expr.begins_of_yields _ rs yields
  have first : ∀ rest, OperandBegins (inner.chars width ++ rest) := by
    intro rest d next
    cases code : inner.chars width with
    | nil =>
        rw [code, shapes_nil, begin] at whole
        cases whole
    | cons c cs =>
        rw [code] at next whole
        exact first_of_beginsExpr (whole.trans begin) begins next
  have behind : Spells (Expr.unary s op operand).Follows (inner.chars width) rs :=
    spells.mono fun rest follow =>
      .inr ((follow.numberEnds (by simp [Expr.tail])).follows operand)
  unfold unaryCode
  split
  · rename_i negate
    obtain ⟨rfl, _⟩ := negate
    have minus := Spells.marks [.symbol '-', .blank ' '] (by decide)
    rw [chars_text]
    exact ⟨_, ⟨⟨.minus, _, none⟩, rs, rfl, rfl, yields⟩, minus.append_of_anything behind⟩
  · obtain ⟨t, operator, before⟩ := Spells.unaryOp op
    refine ⟨t :: rs, ⟨t, rs, rfl, operator, yields⟩, ?_⟩
    rw [chars_text]
    exact before.append behind fun rest _ => first rest

theorem call {callee : Expr} {args : List Expr} {l m : Layout}
    (first : callee.ReadAs (l.chars width)) {ts : List Shape} (yields : argsYield (argsRegroup args) ts)
    (spells : Spells NumberEnds (m.chars width) ts) :
    (Expr.call s callee args).ReadAs (Layout.chars width
      (parenthesized callee.isAwaitedSelection l ++ Piece.text "(" :: m ++ [Piece.text ")"])) := by
  obtain ⟨ls, leftYields, leftSpells⟩ := first.operand callee.isAwaitedSelection
  obtain ⟨us, enclosed, inside⟩ := Spells.parenthesized yields spells
    (NumberEnds.cons (by decide) (by decide))
  refine ⟨ls ++ us, ⟨ls, us, rfl, leftYields, enclosed⟩, ?_⟩
  have whole : Layout.chars width
      (parenthesized callee.isAwaitedSelection l ++ Piece.text "(" :: m ++ [Piece.text ")"]) =
      (parenthesized callee.isAwaitedSelection l).chars width
        ++ '(' :: (m.chars width ++ [')']) := by
    simp
  rw [whole]
  refine leftSpells.append inside.of_anything fun rest _ => .inr ?_
  exact (NumberEnds.cons (by decide) (by decide) _).follows callee

theorem member {object : Expr} {property : String} (h : object.ReadAs (l.chars width))
    (ladder : .postfixed ≤ object.tail) (word : isWord property = true) :
    (Expr.member s object property).ReadAs (Layout.chars width
      (parenthesized (object.isAwaitedSelection || object.isNumber) l
        ++ [.text ("." ++ property)])) := by
  obtain ⟨ls, yields, spells⟩ := h.operand (object.isAwaitedSelection || object.isNumber)
  have dot := Spells.marks [.symbol '.'] (by decide)
  refine ⟨_, ⟨ls, ⟨.dot, String.ofList ['.'], none⟩, wordShape property, rfl, yields, rfl,
    wordShape_isProperty property, rfl⟩, ?_⟩
  have whole : Layout.chars width (parenthesized (object.isAwaitedSelection || object.isNumber) l
      ++ [.text ("." ++ property)]) =
      (parenthesized (object.isAwaitedSelection || object.isNumber) l).chars width
        ++ (['.'] ++ property.toList) := by
    simp
  rw [whole]
  have behind := dot.append_of_anything (Spells.word property word)
  refine spells.append (behind.mono fun rest follow => follow.1) fun rest _ => ?_
  cases number : object.isNumber with
  | true => exact .inl (by simp)
  | false =>
      have tight : object.tail = .postfixed := by
        revert ladder
        cases object.tail <;> decide
      exact .inr ⟨WordEnds.cons (by decide) _, fun _ => ⟨tight, number⟩⟩

end Expr.ReadAs

/-! ## Templates -/

/-- The characters of a template body are read as the parts, and resolved to the value. -/
structure PartsReadAs (parts : List Part) (body value : List Char) : Prop where
  scanned : ∀ rest, NoBrace rest →
    splitTemplate .text (body ++ rest) = (splitTemplate .text rest).pushAll body
  resolved : ∀ rest, NoBrace rest →
    templateValue .text (body ++ rest) = value ++ templateValue .text rest
  split : ∀ begun here, partsYield parts (segments .text begun here value)
  apart : Part.beginsWithText parts = false → ∀ rest, NoBrace rest →
    NoBrace (body ++ rest) ∧ NoBrace (value ++ rest)

namespace PartsReadAs

variable {parts : List Part} {body value : List Char}

theorem nil : PartsReadAs [] [] [] where
  scanned _ _ := rfl
  resolved _ _ := rfl
  split _ _ := rfl
  apart _ _ next := ⟨next, next⟩

theorem beginsWithText_of_yields {segments : List Segment} (h : partsYield parts segments) :
    Segment.beginsWithText segments = Part.beginsWithText parts := by
  cases parts with
  | nil =>
      obtain rfl : segments = [] := h
      rfl
  | cons part parts =>
      cases part with
      | text s =>
          obtain ⟨cs, rest, rfl, _⟩ := h
          rfl
      | expr e =>
          obtain ⟨place, cs, rest, rfl, _⟩ := h
          rfl

theorem text {s : String} (h : PartsReadAs parts body value) (some : s ≠ "")
    (apart : Part.beginsWithText parts = false) :
    PartsReadAs (.text s :: parts) (escapeTemplate s.toList ++ body)
      (keptEscapes s.toList ++ value) where
  scanned rest next := by
    rw [List.append_assoc, splitTemplate_escapeTemplate _ (h.apart apart rest next).1,
      h.scanned rest next, Cut.pushAll_append]
  resolved rest next := by
    rw [List.append_assoc, templateValue_escapeTemplate _ (h.apart apart rest next).1,
      h.resolved rest next, List.append_assoc]
  split begun here := by
    have next : NoBrace value := by
      simpa using (h.apart apart [] (by simp [NoBrace])).2
    obtain ⟨there, same⟩ := segments_keptEscapes s.toList next begun here
    have later := h.split begun there
    rw [same, foldr_pushText (by simpa using some)
      ((beginsWithText_of_yields later).trans apart)]
    exact ⟨_, _, rfl, String.ofList_toList.symm, later⟩
  apart begins := nomatch begins

theorem expr {e : Expr} {cs : List Char} (h : PartsReadAs parts body value)
    (neutral : Neutral cs) (yields : e.Yields (shapes cs)) :
    PartsReadAs (.expr e :: parts) (sourceChars cs ++ body) (sourceChars cs ++ value) where
  scanned rest next := by
    rw [List.append_assoc, splitTemplate_source neutral, h.scanned rest next, Cut.pushAll_append]
  resolved rest next := by
    rw [List.append_assoc, templateValue_source neutral, h.resolved rest next, List.append_assoc]
  split begun here := by
    obtain ⟨there, same⟩ := segments_source neutral value begun here
    rw [same]
    exact ⟨_, cs, _, rfl, yields, h.split _ there⟩
  apart _ rest _ := by simp [NoBrace, sourceChars]

end PartsReadAs

theorem Expr.ReadAs.template {s : Span} {parts : List Part} {body value : List Char}
    (h : PartsReadAs (partsRegroup parts) body value) :
    (Expr.template s parts).ReadAs ('`' :: (body ++ ['`'])) := by
  have resolved : templateValue .text body = value := by
    simpa [templateValue] using h.resolved [] (by simp [NoBrace])
  have spells := Spells.template h.scanned resolved
  refine ⟨_, ⟨⟨.template, _, some (.string (String.ofList value))⟩, rfl, rfl, ?_⟩,
    spells.of_anything⟩
  simpa [Shape.body, templateSegments] using h.split .first .first

/-! ## Sources in templates -/

theorem Neutral.word {word : String} (h : isWord word = true) : Neutral word.toList := by
  apply Neutral.of_all
  rw [List.all_eq_true]
  intro c hc
  exact isPlainChar_of_isWordPart (isWordPart_of_mem h hc)

theorem Neutral.literal {s : Span} {value : Literal} (h : (Expr.literal s value).Spelled) :
    Neutral value.code.toList := by
  cases value with
  | number x =>
      obtain ⟨whole, fraction, text, _, digits, fractional, _⟩ := h
      have plain : ∀ cs : List Char, (∀ c ∈ cs, isDigit c = true) → Neutral cs := by
        intro cs all
        apply Neutral.of_all
        rw [List.all_eq_true]
        exact fun c hc => isPlainChar_of_isWordPart (isWordPart_of_isDigit (all c hc))
      rw [Literal.code, text]
      refine (plain whole digits).append ?_
      unfold pointed
      split
      · exact Neutral.nil
      · have point : Neutral ['.'] := Neutral.of_all (by decide)
        exact point.append (plain fraction fractional)
  | string text =>
      rw [Literal.code, String.toList_ofList]
      exact Neutral.string text.toList
  | boolean b => cases b <;> exact Neutral.of_all (by decide)
  | null => exact Neutral.of_all (by decide)

theorem Neutral.parenthesized {l : Layout} (h : Neutral (l.chars width)) (wrapped : Bool) :
    Neutral ((Layout.parenthesized wrapped l).chars width) := by
  cases wrapped with
  | false => exact h
  | true =>
      have opening : Neutral ['('] := Neutral.of_all (by decide)
      have closing : Neutral [')'] := Neutral.of_all (by decide)
      simpa [Layout.parenthesized] using opening.append (h.append closing)

mutual

theorem Expr.neutral_code (level n : Nat) : ∀ e : Expr, e.Every spelled → e.Every untemplated →
    Neutral ((e.code level n).chars width)
  | .literal _ _, h, _ => by
    simpa [Expr.code] using Neutral.literal h.2
  | .ident _ name, h, _ => by
    have word := isWord_of_isName (isName_of_isFreeName h.2)
    simpa [Expr.code, bindingName_of_isFreeName h.2] using Neutral.word word
  | .assign _ op target value, h, plain => by
    have between : Neutral (" " ++ op.symbol ++ " ").toList := Neutral.of_all (by cases op <;> decide)
    have left := Expr.neutral_code level n target h.2.1 plain.2.1
    have right := Expr.neutral_code level (n + temporaries target.visits) value h.2.2 plain.2.2
    rw [Expr.code, chars_append, chars_text]
    exact left.append (between.append right)
  | .binary _ op left right, h, plain => by
    have between : Neutral (" " ++ op.symbol ++ " ").toList := Neutral.of_all (by cases op <;> decide)
    have first := Expr.neutral_code level n left h.2.1 plain.2.1
    have second := Expr.neutral_code level (n + temporaries left.visits) right h.2.2 plain.2.2
    rw [Expr.code, chars_append, chars_text]
    exact (first.parenthesized _).append (between.append (second.parenthesized _))
  | .unary _ op operand, h, plain => by
    have inner := Expr.neutral_code level n operand h.2 plain.2
    have symbol : Neutral op.symbol.toList := Neutral.of_all (by cases op <;> decide)
    have minus : Neutral "- ".toList := Neutral.of_all (by decide)
    rw [Expr.code, unaryCode]
    split
    · rw [chars_text]
      exact minus.append (inner.parenthesized _)
    · rw [chars_text]
      exact symbol.append (inner.parenthesized _)
  | .group _ inner, h, plain =>
    (Expr.neutral_code level n inner h.2 plain.2).parenthesized true
  | .call _ callee args, h, plain => by
    have first := Expr.neutral_code level n callee h.2.1 plain.2.1
    have second := argsNeutral_code level (n + temporaries callee.visits) args h.2.2 plain.2.2
    have whole := (first.parenthesized callee.isAwaitedSelection).append
      (second.parenthesized true)
    simpa [Expr.code, Layout.parenthesized] using whole
  | .member _ object property, h, plain => by
    have first := Expr.neutral_code level n object h.2 plain.2
    have dot : Neutral ['.'] := Neutral.of_all (by decide)
    have whole := (first.parenthesized (object.isAwaitedSelection || object.isNumber)).append
      (dot.append (Neutral.word h.1.2))
    simpa [Expr.code] using whole
  | .await _ operand, h, plain => by
    have inner := Expr.neutral_code level n operand h.2 plain.2
    have word : Neutral "await ".toList := Neutral.of_all (by decide)
    rw [Expr.code, chars_text]
    exact word.append (inner.parenthesized _)
  | .select _ _ _, h, _ => nomatch h.1.2
  | .template _ _, _, plain => nomatch plain.1

theorem argsNeutral_code (level n : Nat) : ∀ args : List Expr, argsEvery spelled args →
    argsEvery untemplated args → Neutral ((argsCode level n args).chars width)
  | [], _, _ => by
    simpa [argsCode] using Neutral.nil
  | [e], h, plain => Expr.neutral_code level n e h.1 plain.1
  | e :: f :: es, h, plain => by
    have comma : Neutral ", ".toList := Neutral.of_all (by decide)
    have first := Expr.neutral_code level n e h.1 plain.1
    have rest := argsNeutral_code level (n + temporaries e.visits) (f :: es) h.2 plain.2
    rw [argsCode, chars_append, chars_text]
    exact first.append (comma.append rest)

end

/-! ## Expressions -/

mutual

theorem Expr.readAs_code (level n : Nat) : ∀ e : Expr, e.Every spelled →
    e.ReadAs ((e.code level n).chars width)
  | .literal _ _, h => by
    simpa [Expr.code] using Expr.readAs_literal h.2
  | .ident _ name, h => by
    obtain ⟨t, kind, text, spells⟩ := Spells.name h.2
    refine ⟨[t], ⟨t, rfl, kind, text⟩, ?_⟩
    simpa [Expr.code] using spells.mono fun rest follow => follow.1
  | .assign _ _ target value, h =>
    .assign (Expr.readAs_code level n target h.2.1) (Expr.readAs_code level _ value h.2.2)
  | .binary _ _ left right, h =>
    .binary (Expr.readAs_code level n left h.2.1) (Expr.readAs_code level _ right h.2.2)
  | .unary _ _ operand, h => .unary (Expr.readAs_code level n operand h.2)
  | .group _ inner, h => .group (Expr.readAs_code level n inner h.2)
  | .call _ callee args, h => by
    obtain ⟨ts, yields, spells⟩ := argsReadAs_code level (n + temporaries callee.visits) args h.2.2
    exact .call (Expr.readAs_code level n callee h.2.1) yields spells
  | .member _ object _, h =>
    .member (Expr.readAs_code level n object h.2) (Expr.laddered_member.mp h.1.1) h.1.2
  | .await _ operand, h => .await (Expr.readAs_code level n operand h.2)
  | .select _ _ _, h => nomatch h.1.2
  | .template _ parts, h => by
    obtain ⟨value, read⟩ := partsReadAs_code level n parts h.2 h.1.2.1 h.1.2.2
    simpa [Expr.code] using Expr.ReadAs.template read

theorem argsReadAs_code (level n : Nat) : ∀ args : List Expr, argsEvery spelled args →
    ∃ ts, argsYield (argsRegroup args) ts ∧ Spells NumberEnds ((argsCode level n args).chars width) ts
  | [], _ => ⟨[], rfl, by simpa [argsCode] using Spells.nil⟩
  | [e], h => by
    obtain ⟨ts, yields, spells⟩ := Expr.readAs_code level n e h.1
    exact ⟨ts, yields, spells.mono fun rest ends => ends.follows e⟩
  | e :: f :: es, h => by
    obtain ⟨ls, yields, spells⟩ := Expr.readAs_code level n e h.1
    obtain ⟨rs, rest, others⟩ := argsReadAs_code level (n + temporaries e.visits) (f :: es) h.2
    have comma := Spells.marks [.symbol ',', .blank ' '] (by decide)
    refine ⟨_, ⟨ls, ⟨.comma, String.ofList [','], none⟩, rs, rfl, yields, rfl, rest⟩, ?_⟩
    rw [argsCode, chars_append, chars_text]
    refine spells.append (comma.append_of_anything others) fun _ _ => ?_
    exact (NumberEnds.cons (by decide) (by decide) _).follows e

theorem partsReadAs_code (level n : Nat) : ∀ parts : List Part, partsEvery spelled parts →
    Part.Apart parts → partsEvery untemplated parts →
    ∃ value, PartsReadAs (partsRegroup parts) ((partsCode level n parts).chars width) value
  | [], _, _, _ => ⟨[], by simpa [partsCode, partsRegroup] using PartsReadAs.nil⟩
  | .text s :: parts, h, apart, plain => by
    obtain ⟨value, rest⟩ := partsReadAs_code level n parts h apart.2.2 plain
    have begins : Part.beginsWithText (partsRegroup parts) = false := by
      rw [← apart.2.1]
      cases parts with
      | nil => rfl
      | cons part parts => cases part <;> rfl
    refine ⟨keptEscapes s.toList ++ value, ?_⟩
    simpa [partsCode, partsRegroup] using rest.text apart.1 begins
  | .expr e :: parts, h, apart, plain => by
    obtain ⟨value, rest⟩ := partsReadAs_code level (n + temporaries e.visits) parts h.2 apart plain.2
    obtain ⟨ts, yields, spells⟩ := Expr.readAs_code level n e h.1
    have read : e.regroup.Yields (shapes ((e.code level n).chars width)) := by
      have whole := spells [] (NumberEnds.nil.follows e)
      rw [List.append_nil, shapes_nil, List.append_nil] at whole
      rwa [whole]
    have neutral : Neutral ((e.code level n).chars width) :=
      Expr.neutral_code level n e h.1 plain.1
    refine ⟨sourceChars ((e.code level n).chars width) ++ value, ?_⟩
    simpa [partsCode, partsRegroup, sourceChars] using rest.expr neutral read

end

end

end TwoScript
