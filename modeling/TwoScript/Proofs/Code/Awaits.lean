import TwoScript.Proofs.Code.Hygiene
import TwoScript.Proofs.Code.Operators
import TwoScript.Proofs.Js.Scope
import TwoScript.Proofs.Tree.Node

/-!
# Awaits in generated code

A selection becomes a function that is called at once, and an `await` inside of it must not
end up in a plain arrow function. The function is async exactly if something in the selection
waits, functions and classes that are declared in it apart: those have functions of their own
around what waits in them. Code is followed with the place it may stand in: what waits stands
where an `await` is permitted, and everything else may stand anywhere.
-/

namespace TwoScript

open Layout Js

/-! ## Waiting -/

namespace Node

def isDeclaration : Node → Bool
  | statement s => s.isDeclaration
  | expr _ => false

/-- An `await` stands in the node, outside of the functions and classes declared in it. -/
inductive Waits : Node → Prop where
  | await (s : Span) (operand : Expr) : Waits (expr (.await s operand))
  | inside {n m : Node} : n.isDeclaration = false → m ∈ n.children → Waits m → Waits n

def AnyWaits (ns : List Node) : Prop :=
  ∃ n ∈ ns, n.Waits

@[simp] theorem anyWaits_nil : ¬AnyWaits [] := by
  simp [AnyWaits]

@[simp] theorem anyWaits_cons (n : Node) (ns : List Node) :
    AnyWaits (n :: ns) ↔ n.Waits ∨ AnyWaits ns := by
  simp [AnyWaits]

@[simp] theorem anyWaits_append (ms ns : List Node) :
    AnyWaits (ms ++ ns) ↔ AnyWaits ms ∨ AnyWaits ns := by
  simp [AnyWaits, or_and_right, exists_or]

theorem waits_iff (n : Node) : n.Waits ↔
    (∃ s operand, n = expr (.await s operand)) ∨
      n.isDeclaration = false ∧ AnyWaits n.children := by
  constructor
  · rintro (⟨s, operand⟩ | ⟨outside, child, waits⟩)
    · exact .inl ⟨s, operand, rfl⟩
    · exact .inr ⟨outside, _, child, waits⟩
  · rintro (⟨s, operand, rfl⟩ | ⟨outside, m, child, waits⟩)
    · exact .await s operand
    · exact .inside outside child waits

end Node

section

attribute [local simp] Node.isDeclaration Node.children Expr.children Statement.children
  Statement.isDeclaration Expr.awaits Statement.awaits

mutual

theorem Expr.awaits_iff : ∀ e : Expr, e.awaits = true ↔ (Node.expr e).Waits
  | .literal _ _ | .ident _ _ => by
    rw [Node.waits_iff]
    simp
  | .assign _ _ left right | .binary _ _ left right => by
    rw [Node.waits_iff]
    simp [left.awaits_iff, right.awaits_iff]
  | .unary _ _ inner | .group _ inner | .member _ inner _ => by
    rw [Node.waits_iff]
    simp [inner.awaits_iff]
  | .call _ callee args => by
    rw [Node.waits_iff]
    simp [callee.awaits_iff, argsAwait_iff args]
  | .await s operand => by simp [Node.Waits.await s operand]
  | .select _ subject arms => by
    rw [Node.waits_iff]
    simp [subject.awaits_iff, armsAwait_iff arms]
  | .template _ parts => by
    rw [Node.waits_iff]
    simp [partsAwait_iff parts]

theorem argsAwait_iff : ∀ args : List Expr,
    argsAwait args = true ↔ Node.AnyWaits (args.map .expr)
  | [] => by simp [argsAwait]
  | e :: es => by simp [argsAwait, e.awaits_iff, argsAwait_iff es]

theorem armsAwait_iff : ∀ arms : List Arm,
    armsAwait arms = true ↔ Node.AnyWaits (arms.flatMap Arm.nodes)
  | [] => by simp [armsAwait]
  | ⟨none, body⟩ :: arms => by
    simp [armsAwait, Arm.nodes, body.awaits_iff, armsAwait_iff arms]
  | ⟨some pattern, body⟩ :: arms => by
    simp [armsAwait, Arm.nodes, pattern.awaits_iff, body.awaits_iff, armsAwait_iff arms,
      or_assoc, or_left_comm]

theorem partsAwait_iff : ∀ parts : List Part,
    partsAwait parts = true ↔ Node.AnyWaits (parts.flatMap Part.nodes)
  | [] => by simp [partsAwait]
  | .text _ :: parts => by simp [partsAwait, Part.nodes, partsAwait_iff parts]
  | .expr e :: parts => by simp [partsAwait, Part.nodes, e.awaits_iff, partsAwait_iff parts]

theorem Statement.awaits_iff : ∀ s : Statement, s.awaits = true ↔ (Node.statement s).Waits
  | .function _ _ | .classDecl _ _ _ | .failed _ | .declare _ _ _ _ none | .returning _ none => by
    rw [Node.waits_iff]
    simp
  | .declare _ _ _ _ (some value) | .returning _ (some value) | .expression _ value => by
    rw [Node.waits_iff]
    simp [value.awaits_iff]
  | .conditional _ condition body none => by
    rw [Node.waits_iff]
    simp [condition.awaits_iff, bodyAwaits_iff body]
  | .conditional _ condition body (some otherwise) => by
    rw [Node.waits_iff]
    simp [condition.awaits_iff, bodyAwaits_iff body, otherwise.awaits_iff, or_assoc]
  | .attempt _ body handler cleanup => by
    rw [Node.waits_iff]
    simp [bodyAwaits_iff body, handlerAwaits_iff handler, cleanupAwaits_iff cleanup, or_assoc]
  | .block _ body => by
    rw [Node.waits_iff]
    simp [bodyAwaits_iff body]

theorem bodyAwaits_iff : ∀ body : List Statement,
    bodyAwaits body = true ↔ Node.AnyWaits (body.map .statement)
  | [] => by simp [bodyAwaits]
  | s :: ss => by simp [bodyAwaits, s.awaits_iff, bodyAwaits_iff ss]

theorem handlerAwaits_iff : ∀ handler : Option Handler, handlerAwaits handler = true ↔
    Node.AnyWaits ((handler.toList.flatMap Handler.body).map .statement)
  | none => by simp [handlerAwaits]
  | some ⟨_, body⟩ => by simp [handlerAwaits, bodyAwaits_iff body]

theorem cleanupAwaits_iff : ∀ cleanup : Option (List Statement), cleanupAwaits cleanup = true ↔
    Node.AnyWaits ((cleanup.getD []).map .statement)
  | none => by simp [cleanupAwaits]
  | some body => by simp [cleanupAwaits, bodyAwaits_iff body]

end

end

/-! ## Names and values -/

namespace Js

theorem Splits.jsWord {s : String} (h : isJsWord s = true) :
    Splits Fresh Loose [] [] [.word s.toList] s.toList := by
  unfold isJsWord at h
  cases chars : s.toList with
  | nil => simp [chars] at h
  | cons c cs =>
      simp only [chars, Bool.and_eq_true, List.all_eq_true] at h
      have first : continuesWord c = true := by
        simp only [beginsWord, Bool.or_eq_true] at h
        simp only [continuesWord, Bool.or_eq_true]
        exact h.1.imp_left Lexeme.isWordPart_of_isWordStart
      exact .word (by simp) (List.forall_mem_cons.mpr ⟨first, h.2⟩)

theorem bindingName_ne_await {name : String} (h : isName name = true) :
    (bindingName name).toList ≠ "await".toList := by
  intro same
  have word := bindingName_not_mem h
  rw [String.toList_inj.mp same] at word
  exact word (by decide)

theorem ne_await_of_isName {name : String} (h : isName name = true) :
    name.toList ≠ "await".toList := by
  intro same
  rw [String.toList_inj.mp same] at h
  cases h

namespace Safe

variable {allowed : List Scope → Prop} {wait : Bool} {cs : List Char}

theorem bindingName {name : String} (h : isName name = true) :
    Safe allowed .fresh .loose [] [] (bindingName name).toList :=
  .word (.jsWord (isJsWord_bindingName h)) (bindingName_ne_await h)

theorem temporary {temp : String} (h : Temporary temp) :
    Safe allowed .fresh .loose [] [] temp.toList := by
  refine .word (.word h.ne_nil h.2) fun same => ?_
  have named := h.1
  rw [same] at named
  cases named

theorem digits (h : ∀ c ∈ cs, isDigit c = true) : Safe allowed .fresh .loose [] [] cs := by
  cases cs with
  | nil => exact nil.relax (Nat.le_refl _) (by decide)
  | cons c cs =>
      refine .word (.word (by simp) fun d hd => ?_) fun same => ?_
      · simp [continuesWord, isWordPart_of_isDigit (h d hd)]
      · have digit := h c List.mem_cons_self
        rw [(List.cons.inj same).1] at digit
        cases digit

theorem positional (n places : Nat) :
    Safe allowed .fresh .loose [] [] (positional n places).toList := by
  obtain ⟨whole, fraction, text, _, left, right, _⟩ := positional_digits n places
  have point : Safe allowed .loose .fresh [] [] ['.'] := .of_harmless (by decide)
  rw [text, pointed]
  split
  · exact (digits left).append nil
  · exact (digits left).append (point.append (digits right))

theorem number (x : Number) : Safe allowed .fresh .loose [] [] (x.textWith "Infinity").toList := by
  have minus : Safe allowed .fresh .fresh [] [] "-".toList := .of_harmless (by decide)
  have zero : Safe allowed .fresh .loose [] [] "0".toList := .of_harmless (by decide)
  have signed : ∀ (negative : Bool) {s : String}, Safe allowed .fresh .loose [] [] s.toList →
      Safe allowed .fresh .loose [] [] (if negative then "-" ++ s else s).toList := by
    intro negative s plain
    cases negative with
    | false => exact plain
    | true =>
        rw [if_pos rfl, String.toList_append]
        exact minus.append plain
  cases x with
  | nan => exact .of_harmless (by decide)
  | infinite negative => exact signed negative (.of_harmless (by decide))
  | finite negative m e =>
      apply signed negative
      split
      · exact zero
      · exact positional _ _

theorem literal (value : Literal) : Safe allowed .fresh .loose [] [] value.code.toList := by
  cases value with
  | number x => exact number x
  | string s =>
      rw [Literal.code, String.toList_ofList]
      exact string s.toList
  | boolean b => cases b <;> exact .of_harmless (by decide)
  | null => exact .of_harmless (by decide)

end Safe

end Js

section

variable {width : Nat} {wait : Bool} {a b : List Char}

/-! ## Lines and blocks -/

theorem Js.SafeLines.line {content : Layout} {level : Nat}
    (h : SafeLines wait a b (content.chars width)) :
    SafeLines wait a b ((line level content).chars width) := by
  have newline : SafeLines wait [] [] ['\n'] := .of_harmless (by decide)
  rw [chars_line]
  exact ((Safe.blanks _).within a).append (h.append (newline.within b))

theorem Js.SafeLines.textLine {text : String} {level : Nat} (h : SafeLines wait a b text.toList) :
    SafeLines wait a b ((textLine level text).chars width) := by
  apply Js.SafeLines.line
  rwa [chars_text, chars_nil, List.append_nil]

theorem Js.SafeLines.closingLine (width level : Nat) :
    SafeLines wait ['}'] [] ((Layout.textLine level "\x7d").chars width) :=
  .textLine (.of_harmless (by decide))

theorem Js.SafeTerm.parenthesized {cs : List Char} (h : SafeTerm wait cs) :
    SafeTerm wait ('(' :: (cs ++ [')'])) := by
  have opening : Safe (Permits wait) .fresh .fresh [] [')'] ['('] := .of_harmless (by decide)
  have closing : Safe (Permits wait) .loose .loose [')'] [] [')'] := .of_harmless (by decide)
  exact opening.append ((h.within _).append closing)

theorem Js.SafeTerm.parenthesizedIf {l : Layout} (h : SafeTerm wait (l.chars width))
    (wrapped : Bool) : SafeTerm wait ((Layout.parenthesized wrapped l).chars width) := by
  cases wrapped with
  | false => exact h
  | true =>
      have around := h.parenthesized
      simpa [Layout.parenthesized] using around

/-- A line that ends behind an expression. -/
theorem Js.SafeLines.terminated {l : Layout} (level : Nat) (first : String)
    (word : Safe (Permits wait) .still .fresh [] [] first.toList)
    (h : SafeTerm wait (l.chars width)) :
    SafeLines wait [] []
      ((Layout.line level (Piece.text first :: l ++ [Piece.text ";"])).chars width) := by
  have last : Safe (Permits wait) .loose .still [] [] ";".toList := .of_harmless (by decide)
  apply Js.SafeLines.line
  have whole := word.append (h.append last)
  simpa using whole

theorem Js.SafeTerm.unaryCode {op : UnaryOp} {l : Layout} (h : SafeTerm wait (l.chars width)) :
    SafeTerm wait ((unaryCode op l).chars width) := by
  have symbol : Safe (Permits wait) .fresh .fresh [] [] op.symbol.toList := by
    cases op <;> exact .of_harmless (by decide)
  have minus : Safe (Permits wait) .fresh .fresh [] [] "- ".toList := .of_harmless (by decide)
  unfold TwoScript.unaryCode
  split
  · rw [chars_text]
    exact minus.append h
  · rw [chars_text]
    exact symbol.append h

/-! ## Selections -/

theorem Js.SafeLines.testLine {temp : String} {pattern : Layout} (level : Nat) (keyword : String)
    (named : Temporary temp)
    (first : Safe (Permits wait) .still .fresh a [')'] (keyword ++ " (").toList)
    (h : SafeTerm wait (pattern.chars width)) :
    SafeLines wait a ['}'] ((Layout.line level (Piece.text (keyword ++ " (" ++ temp ++ " === ")
      :: pattern ++ [Piece.text ") \x7b"])).chars width) := by
  have equal : Safe (Permits wait) .loose .fresh [] [] " === ".toList := .of_harmless (by decide)
  have last : Safe (Permits wait) .loose .still [')'] ['}'] ") \x7b".toList :=
    .of_harmless (by decide)
  apply Js.SafeLines.line
  have whole := first.append (((Safe.temporary named).within _).append ((equal.within _).append
    ((h.within _).append last)))
  simpa using whole

/-- The tests behind the first one each close the block in front of them. -/
theorem Choice.safe_testsCode {temp : String} (level : Nat) (named : Temporary temp)
    {tests : List (Layout × Layout)} (h : ∀ t ∈ tests, SafeTerm wait (t.1.chars width) ∧
      SafeLines wait [] [] (t.2.chars width)) :
    SafeLines wait ['}'] ['}'] ((testsCode level temp "\x7d else if" tests).chars width) := by
  induction tests with
  | nil => exact .nil
  | cons t tests ih =>
      obtain ⟨pattern, body⟩ := t
      obtain ⟨⟨tested, inner⟩, rest⟩ := List.forall_mem_cons.mp h
      have first := SafeLines.testLine (a := ['}']) level "\x7d else if" named
        (.of_harmless (by decide)) tested
      rw [testsCode, chars_append, chars_append]
      exact (first.append (inner.within _)).append (ih rest)

theorem Choice.safe_code {temp : String} {c : Choice} (level : Nat) (named : Temporary temp)
    (h : ∀ t ∈ c.tests, SafeTerm wait (t.1.chars width) ∧ SafeLines wait [] [] (t.2.chars width))
    (last : SafeLines wait [] [] (c.otherwise.chars width)) :
    SafeLines wait [] [] ((c.code level temp).chars width) := by
  obtain ⟨tests, otherwise⟩ := c
  unfold Choice.code
  cases tests with
  | nil => exact last
  | cons t tests =>
      obtain ⟨pattern, body⟩ := t
      obtain ⟨⟨tested, inner⟩, rest⟩ := List.forall_mem_cons.mp h
      have first := SafeLines.testLine (a := []) level "if" named (.of_harmless (by decide)) tested
      have brace : SafeLines wait ['}'] ['}']
          ((textLine level "\x7d else \x7b").chars width) := .textLine (.of_harmless (by decide))
      have whole := ((((first.append (inner.within _)).append
        (Choice.safe_testsCode level named rest)).append brace).append (last.within _)).append
          (SafeLines.closingLine width level)
      rw [List.isEmpty_cons, if_neg (by simp), Choice.testsCode]
      simpa using whole

theorem Js.SafeLines.noMatchCode {temp : String} (level : Nat) (named : Temporary temp) :
    SafeLines wait [] [] ((noMatchCode level temp).chars width) := by
  have first : Safe (Permits wait) .still .fresh [] [')']
      "throw new Error(\"no match for value: \" + ".toList := .of_harmless (by decide)
  have last : Safe (Permits wait) .loose .still [')'] [] ");".toList := .of_harmless (by decide)
  apply Js.SafeLines.textLine
  have whole := first.append (((Safe.temporary named).within _).append last)
  simpa using whole

theorem Js.SafeTerm.selectionCode {temp : String} {subject : Layout} {choice : Choice} {level : Nat}
    {awaits : Bool} (named : Temporary temp) (h : SafeTerm awaits (subject.chars width))
    (chosen : SafeLines awaits [] [] ((choice.code (level + 1) temp).chars width)) :
    SafeTerm awaits ((selectionCode level temp awaits subject choice).chars width) := by
  have keyword : Safe (Permits awaits) .still .fresh [] [] "const ".toList :=
    .of_harmless (by decide)
  have equal : Safe (Permits awaits) .loose .fresh [] [] " = ".toList := .of_harmless (by decide)
  have held : Safe (Permits awaits) .still .fresh [] [] ("const " ++ temp ++ " = ").toList := by
    simpa using keyword.append ((Safe.temporary named).append equal)
  have declared := SafeLines.terminated (level + 1) _ held h
  have whole := Safe.called (declared.append chosen) (level * width)
  cases awaits <;> simpa [TwoScript.selectionCode] using whole

/-! ## Statements -/

theorem Js.Safe.declaration {name : String} (constant : Bool) (named : isName name = true) :
    Safe (Permits wait) .still .loose [] []
      ((if constant then "const " else "let ") ++ TwoScript.bindingName name).toList := by
  have word : Safe (Permits wait) .still .fresh [] []
      (if constant then "const " else "let ").toList := by
    cases constant <;> exact .of_harmless (by decide)
  rw [String.toList_append]
  exact word.append (Safe.bindingName named)

/-- A branch of a conditional, behind nothing or behind the brace that closes the one before,
up to the end of the conditional. -/
theorem Js.SafeLines.branch {head : String} {condition body rest : Layout} (level : Nat)
    (first : Safe (Permits wait) .still .fresh a [')'] head.toList)
    (h : SafeTerm wait (condition.chars width)) (inside : SafeLines wait [] [] (body.chars width))
    (last : SafeLines wait ['}'] [] (rest.chars width)) :
    SafeLines wait a [] (Layout.chars width (Piece.indent level :: Piece.text head :: condition
      ++ Piece.text ") \x7b\n" :: body ++ rest)) := by
  have brace : Safe (Permits wait) .loose .still [')'] ['}'] ") \x7b\n".toList :=
    .of_harmless (by decide)
  have whole := ((Safe.blanks (level * width)).within a).append (first.append ((h.within _).append
    (brace.append ((inside.within _).append last))))
  simpa using whole

/-- A block behind its first line. -/
theorem Js.SafeLines.blockCode {first : String} {body : Layout} {level : Nat}
    (head : SafeLines wait a ['}'] first.toList)
    (inside : SafeLines wait [] [] (body.chars width)) :
    SafeLines wait a []
      ((Layout.textLine level first ++ body ++ Layout.textLine level "\x7d").chars width) := by
  rw [chars_append, chars_append]
  exact (head.textLine.append (inside.within _)).append (SafeLines.closingLine width level)

/-- A clause of an attempt: its first line closes the block in front of it. -/
theorem Js.SafeLines.clauseCode {first : String} {body : Layout} {level : Nat}
    (head : SafeLines wait ['}'] ['}'] first.toList)
    (inside : SafeLines wait [] [] (body.chars width)) :
    SafeLines wait ['}'] ['}'] ((Layout.textLine level first ++ body).chars width) := by
  rw [chars_append]
  exact head.textLine.append (inside.within _)

theorem Js.SafeLines.catchHead {name : String} (named : isName name = true) :
    SafeLines wait ['}'] ['}']
      ("\x7d catch (" ++ TwoScript.bindingName name ++ ") \x7b").toList := by
  have first : Safe (Permits wait) .still .fresh ['}'] [')'] "\x7d catch (".toList :=
    .of_harmless (by decide)
  have last : Safe (Permits wait) .loose .still [')'] ['}'] ") \x7b".toList :=
    .of_harmless (by decide)
  rw [String.toList_append, String.toList_append]
  exact (first.append ((Safe.bindingName named).within _)).append last

theorem Js.SafeLines.attemptCode {body handler cleanup : Layout} {level : Nat}
    (inside : SafeLines wait [] [] (body.chars width))
    (handled : SafeLines wait ['}'] ['}'] (handler.chars width))
    (cleaned : SafeLines wait ['}'] ['}'] (cleanup.chars width)) :
    SafeLines wait [] [] ((Layout.textLine level "try \x7b" ++ body ++ handler ++ cleanup
      ++ Layout.textLine level "\x7d").chars width) := by
  have opening : SafeLines wait [] ['}'] ((Layout.textLine level "try \x7b").chars width) :=
    .textLine (.of_harmless (by decide))
  have whole := opening.append (((inside.within _).append (handled.append cleaned)).append
    (SafeLines.closingLine width level))
  simpa using whole

theorem Js.SafeLines.classCode {name : String} {methods : Layout} (level : Nat)
    (named : isName name = true)
    (inside : Safe InMembers .still .still [] [] (methods.chars width)) :
    SafeLines wait [] [] ((bracedCode level [.text ("class " ++ TwoScript.bindingName name)]
      methods (Layout.textLine level "\x7d")).chars width) := by
  have whole : SafeLines wait [] [] _ := Safe.classBody
    (Splits.jsWord (isJsWord_bindingName named)) (bindingName_ne_await named) inside
    (level * width) (level * width)
  simpa [bracedCode, chars_line, Layout.textLine] using whole

theorem Js.SafeLines.declaredLine {name : String} (level : Nat) (constant : Bool)
    (named : isName name = true) :
    SafeLines wait [] [] ((Layout.textLine level ((if constant then "const " else "let ")
      ++ TwoScript.bindingName name ++ ";")).chars width) := by
  have last : Safe (Permits wait) .loose .still [] [] ";".toList := .of_harmless (by decide)
  apply Js.SafeLines.textLine
  rw [String.toList_append]
  exact (Safe.declaration constant named).append last

def Routine.Place (keyword : Bool) (scopes : List Scope) : Prop :=
  keyword = true ∨ InMembers scopes

/-- The words in front of the parameters of a routine. -/
theorem Routine.exists_heads {name : String} (keyword : Bool) (named : isName name = true) :
    ∃ front, Heads (Place keyword) front ∧ Splits Fresh Loose [] [] front
      (if keyword then "function " ++ bindingName name else name).toList := by
  cases keyword with
  | true =>
      have word : Splits Fresh Fresh [] [] [.word "function".toList] "function ".toList :=
        .fixed rfl
      refine ⟨_, .function (bindingName_ne_await named), ?_⟩
      rw [if_pos rfl, String.toList_append]
      exact word.append (.jsWord (isJsWord_bindingName named))
  | false =>
      refine ⟨[.word name.toList], fun r place => ?_, ?_⟩
      · exact Heads.method (ne_await_of_isName named) r (place.resolve_left (by simp))
      · exact .jsWord (isJsWord_of_isWord (isWord_of_isName named))

theorem Js.Safe.routineCode {name : String} {params body : Layout} (level : Nat)
    (keyword async : Bool) (named : isName name = true)
    (inside : SafeTerm true (params.chars width))
    (below : SafeLines true [] [] (body.chars width)) :
    Safe (Routine.Place keyword) .still .still [] [] ((bracedCode level (signatureCode async
      (if keyword then "function " ++ TwoScript.bindingName name else name) params) body
        (Layout.textLine level "\x7d")).chars width) := by
  obtain ⟨front, head, spelled⟩ := Routine.exists_heads keyword named
  have marked : Splits Fresh Fresh [] [] (if async then [.word "async".toList] else [])
      (if async then "async " else "").toList := by
    cases async <;> exact .fixed rfl
  have whole := Safe.routine (head.async async) (marked.append spelled) inside below
    (level * width) (level * width)
  simpa [bracedCode, signatureCode, chars_line, Layout.textLine] using whole

/-! ## Trees -/

theorem Js.SafeTerm.pattern {e : Expr} (level n : Nat) (h : e.IsPattern) :
    SafeTerm wait ((e.code level n).chars width) := by
  cases e with
  | literal _ value => simpa [Expr.code] using Safe.literal value
  | _ => exact h.elim

/-- What waits is permitted to, if all of it is. -/
theorem waits_left {p q w : Bool} (h : (p || q) = true → w = true) : p = true → w = true :=
  fun first => h (by simp [first])

theorem waits_right {p q w : Bool} (h : (p || q) = true → w = true) : q = true → w = true :=
  fun second => h (by simp [second])

mutual

theorem Expr.safe_code (wait : Bool) (level n : Nat) : ∀ e : Expr, e.Every grammatical →
    (e.awaits = true → wait = true) → SafeTerm wait ((e.code level n).chars width)
  | .literal _ value, _, _ => by simpa [Expr.code] using Safe.literal value
  | .ident _ name, h, _ => by simpa [Expr.code] using Safe.bindingName h.2
  | .assign _ op target value, h, waits => by
    have between : Safe (Permits wait) .loose .fresh [] [] (" " ++ op.symbol ++ " ").toList := by
      cases op <;> exact .of_harmless (by decide)
    have left := target.safe_code wait level n h.2.1 (waits_left waits)
    have right := value.safe_code wait level (n + temporaries target.visits) h.2.2
      (waits_right waits)
    rw [Expr.code, chars_append, chars_text]
    exact left.append (between.append right)
  | .binary _ op left right, h, waits => by
    have between : Safe (Permits wait) .loose .fresh [] [] (" " ++ op.symbol ++ " ").toList := by
      cases op <;> exact .of_harmless (by decide)
    have first := left.safe_code wait level n h.2.1 (waits_left waits)
    have second := right.safe_code wait level (n + temporaries left.visits) h.2.2
      (waits_right waits)
    rw [Expr.code, chars_append, chars_text]
    exact (first.parenthesizedIf _).append (between.append (second.parenthesizedIf _))
  | .unary _ op operand, h, waits =>
    .unaryCode ((operand.safe_code wait level n h.2 waits).parenthesizedIf _)
  | .group _ inner, h, waits => (inner.safe_code wait level n h.2 waits).parenthesizedIf true
  | .call _ callee args, h, waits => by
    have first := callee.safe_code wait level n h.2.1 (waits_left waits)
    have second := argsSafe_code wait level (n + temporaries callee.visits) args h.2.2
      (waits_right waits)
    have opening : Safe (Permits wait) .loose .fresh [] [')'] "(".toList := .of_harmless (by decide)
    have closing : Safe (Permits wait) .loose .loose [')'] [] ")".toList := .of_harmless (by decide)
    have whole := (first.parenthesizedIf callee.isAwaitedSelection).append
      (opening.append ((second.within _).append closing))
    simpa [Expr.code] using whole
  | .member _ object property, h, waits => by
    have first := object.safe_code wait level n h.2 waits
    have whole := (first.parenthesizedIf (object.isAwaitedSelection || object.isNumber)).append
      (Safe.property (.jsWord (isJsWord_of_isWord h.1.2)))
    simpa [Expr.code] using whole
  | .await _ operand, h, waits => by
    -- The keyword itself waits, whatever the operand does.
    obtain rfl : wait = true := waits rfl
    have inner := operand.safe_code true level n h.2 fun _ => rfl
    rw [Expr.code, chars_text]
    exact Safe.await.append (inner.parenthesizedIf _)
  | .select _ subject arms, h, waits => by
    -- Inside of the function exactly what waits in the selection is permitted to.
    have named := temporary_temporary n
    have inner := subject.safe_code (subject.awaits || armsAwait arms) level (n + 1) h.2.1
      fun first => by simp [first]
    have tests := testsSafe_code (subject.awaits || armsAwait arms) (level + 1)
      (n + 1 + temporaries subject.visits) arms h.2.2 fun second => by simp [second]
    have last := otherwiseSafe_code (subject.awaits || armsAwait arms)
      (if (testsOf (level + 1) (n + 1 + temporaries subject.visits) arms).isEmpty then level + 1
        else level + 2) n
      (n + 1 + temporaries subject.visits + temporaries (valueArmsVisits arms)) arms h.2.2
      fun second => by simp [second]
    have chosen := Choice.safe_code (c := ⟨_, _⟩) (level + 1) named tests last
    refine Safe.imp (SafeTerm.selectionCode named inner chosen) ?_
    exact fun _ permitted inside => permitted (waits inside)
  | .template _ parts, h, waits => by
    simpa [Expr.code] using (partsSafe_code wait level n parts h.2 h.1.2 waits).quoted

theorem argsSafe_code (wait : Bool) (level n : Nat) : ∀ args : List Expr,
    argsEvery grammatical args → (argsAwait args = true → wait = true) →
    SafeTerm wait ((argsCode level n args).chars width)
  | [], _, _ => Safe.nil.relax (Nat.le_refl _) (by decide)
  | [e], h, waits => by
    simpa [argsCode] using e.safe_code wait level n h.1 (waits_left waits)
  | e :: f :: es, h, waits => by
    have comma : Safe (Permits wait) .loose .fresh [] [] ", ".toList := .of_harmless (by decide)
    have first := e.safe_code wait level n h.1 (waits_left waits)
    have rest := argsSafe_code wait level (n + temporaries e.visits) (f :: es) h.2
      (waits_right waits)
    rw [argsCode, chars_append, chars_text]
    exact first.append (comma.append rest)

theorem testsSafe_code (wait : Bool) (level n : Nat) : ∀ arms : List Arm,
    armsEvery grammatical arms → (armsAwait arms = true → wait = true) →
    ∀ t ∈ testsOf level n arms, SafeTerm wait (t.1.chars width) ∧
      SafeLines wait [] [] (t.2.chars width)
  | [], _, _ => by simp [testsOf]
  | ⟨none, _⟩ :: arms, h, waits => testsSafe_code wait level n arms h.2 (waits_right waits)
  | ⟨some pattern, body⟩ :: arms, h, waits => by
    have inner := body.safe_code wait .arm (level + 1) (n + temporaries pattern.visits) h.2.1
      (waits_left (waits_left waits))
    have rest := testsSafe_code wait level
      (n + temporaries pattern.visits + temporaries body.visits) arms h.2.2 (waits_right waits)
    rw [testsOf]
    exact List.forall_mem_cons.mpr ⟨⟨.pattern level n h.1, inner⟩, rest⟩

theorem otherwiseSafe_code (wait : Bool) (level m n : Nat) : ∀ arms : List Arm,
    armsEvery grammatical arms → (armsAwait arms = true → wait = true) →
    SafeLines wait [] [] ((otherwiseOf level (temporary m) n arms).chars width)
  | [], _, _ => .noMatchCode level (temporary_temporary m)
  | ⟨none, body⟩ :: _, h, waits => body.safe_code wait .arm level n h.1 (waits_left waits)
  | ⟨some _, _⟩ :: arms, h, waits =>
    otherwiseSafe_code wait level m n arms h.2.2 (waits_right waits)

theorem partsSafe_code (wait : Bool) (level n : Nat) : ∀ parts : List Part,
    partsEvery grammatical parts → Part.Apart parts → (partsAwait parts = true → wait = true) →
    SafeInTemplate wait (Part.beginsWithText parts) ((partsCode level n parts).chars width)
  | [], _, _, _ => .nil
  | .text s :: parts, h, apart, waits => by
    have rest := partsSafe_code wait level n parts h apart.2.2 waits
    rw [apart.2.1] at rest
    simpa [partsCode, Part.beginsWithText] using SafeInTemplate.text s.toList rest
  | .expr e :: parts, h, apart, waits => by
    have rest := partsSafe_code wait level (n + temporaries e.visits) parts h.2 apart
      (waits_right waits)
    have inner := e.safe_code wait level n h.1 (waits_left waits)
    simpa [partsCode] using SafeInTemplate.interpolation inner rest

theorem Statement.safe_code (wait : Bool) (role : Role) (level n : Nat) : ∀ s : Statement,
    s.Every grammatical → (s.awaits = true → wait = true) →
    SafeLines wait [] [] ((s.code role level n).chars width)
  | .function _ routine, h, _ =>
    (routine.safe_code level n true h.1 h.2).imp fun _ _ => .inl rfl
  | .classDecl _ name methods, h, _ =>
    .classCode level h.1.1 (methodsSafe_code (level + 1) n methods h.1.2 h.2)
  | .declare _ constant name _ none, h, _ => .declaredLine level constant h.1
  | .declare _ constant name _ (some initial), h, waits => by
    have equal : Safe (Permits wait) .loose .fresh [] [] " = ".toList := .of_harmless (by decide)
    refine .terminated level _ ?_ (initial.safe_code wait level n h.2 waits)
    rw [String.toList_append]
    exact (Safe.declaration constant h.1.1).append equal
  | .conditional _ condition body none, h, waits => by
    have keyword : Safe (Permits wait) .still .fresh [] [')'] "if (".toList :=
      .of_harmless (by decide)
    have tested := condition.safe_code wait level n h.2.1 (waits_left waits)
    have inner := bodySafe_code wait (level + 1) (n + temporaries condition.visits) body h.2.2
      (waits_right waits)
    have whole := SafeLines.branch level keyword tested inner (.closingLine width level)
    simpa [Statement.code, elseCode] using whole
  | .conditional _ condition body (some otherwise), h, waits => by
    have keyword : Safe (Permits wait) .still .fresh [] [')'] "if (".toList :=
      .of_harmless (by decide)
    have tested := condition.safe_code wait level n h.2.1 (waits_left (waits_left waits))
    have inner := bodySafe_code wait (level + 1) (n + temporaries condition.visits) body h.2.2.1
      (waits_right (waits_left waits))
    have rest := elseSafe_code wait level
      (n + temporaries condition.visits + temporaries (bodyVisits body)) otherwise
      (h.1 otherwise rfl) h.2.2.2 (waits_right waits)
    have whole := SafeLines.branch level keyword tested inner rest
    simpa [Statement.code] using whole
  | .attempt _ body handler cleanup, h, waits => by
    have inner := bodySafe_code wait (level + 1) n body h.2.1 (waits_left (waits_left waits))
    have caught := handlerSafe_code wait level (n + temporaries (bodyVisits body)) handler h.1.2
      h.2.2.1 (waits_right (waits_left waits))
    have cleaned := cleanupSafe_code wait level (n + temporaries (bodyVisits body)
      + temporaries (handlerVisits handler)) cleanup h.2.2.2 (waits_right waits)
    exact .attemptCode inner caught cleaned
  | .returning _ none, _, _ => .textLine (.of_harmless (by decide))
  | .returning _ (some value), h, waits =>
    .terminated level _ (.of_harmless (by decide)) (value.safe_code wait level n h.2 waits)
  | .block _ body, h, waits => by
    cases role with
    | plain =>
        exact .blockCode (.of_harmless (by decide))
          (bodySafe_code wait (level + 1) n body h.2 waits)
    | arm => exact bodySafe_code wait level n body h.2 waits
  | .expression _ value, h, waits => by
    have inner := value.safe_code wait level n h.2 waits
    cases role with
    | plain =>
        have empty : Safe (Permits wait) .still .fresh [] [] "".toList := .of_harmless (by decide)
        have whole := SafeLines.terminated level "" empty inner
        simpa [Statement.code, line] using whole
    | arm => exact .terminated level _ (.of_harmless (by decide)) inner
  | .failed _, _, _ => .nil

theorem bodySafe_code (wait : Bool) (level n : Nat) : ∀ body : List Statement,
    bodyEvery grammatical body → (bodyAwaits body = true → wait = true) →
    SafeLines wait [] [] ((bodyCode level n body).chars width)
  | [], _, _ => .nil
  | s :: ss, h, waits => by
    have first := s.safe_code wait .plain level n h.1 (waits_left waits)
    have rest := bodySafe_code wait level (n + temporaries s.visits) ss h.2 (waits_right waits)
    rw [bodyCode, chars_append]
    exact first.append rest

theorem elseSafe_code (wait : Bool) (level n : Nat) : ∀ s : Statement,
    s.isConditional = true ∨ s.isBlock = true → s.Every grammatical →
    (s.awaits = true → wait = true) →
    SafeLines wait ['}'] [] ((elseCode level n (some s)).chars width)
  | .conditional _ condition body none, _, h, waits => by
    have keyword : Safe (Permits wait) .still .fresh ['}'] [')'] "\x7d else if (".toList :=
      .of_harmless (by decide)
    have tested := condition.safe_code wait level n h.2.1 (waits_left waits)
    have inner := bodySafe_code wait (level + 1) (n + temporaries condition.visits) body h.2.2
      (waits_right waits)
    have whole := SafeLines.branch level keyword tested inner (.closingLine width level)
    simpa [elseCode] using whole
  | .conditional _ condition body (some otherwise), _, h, waits => by
    have keyword : Safe (Permits wait) .still .fresh ['}'] [')'] "\x7d else if (".toList :=
      .of_harmless (by decide)
    have tested := condition.safe_code wait level n h.2.1 (waits_left (waits_left waits))
    have inner := bodySafe_code wait (level + 1) (n + temporaries condition.visits) body h.2.2.1
      (waits_right (waits_left waits))
    have rest := elseSafe_code wait level
      (n + temporaries condition.visits + temporaries (bodyVisits body)) otherwise
      (h.1 otherwise rfl) h.2.2.2 (waits_right waits)
    have whole := SafeLines.branch level keyword tested inner rest
    simpa [elseCode] using whole
  | .block _ body, _, h, waits =>
    .blockCode (.of_harmless (by decide)) (bodySafe_code wait (level + 1) n body h.2 waits)
  | .function _ _, other, _, _ | .classDecl _ _ _, other, _, _ | .declare _ _ _ _ _, other, _, _
  | .attempt _ _ _ _, other, _, _ | .returning _ _, other, _, _ | .expression _ _, other, _, _
  | .failed _, other, _, _ => by
    simp [Statement.isConditional, Statement.isBlock] at other

theorem handlerSafe_code (wait : Bool) (level n : Nat) : ∀ handler : Option Handler,
    (∀ h, handler = some h → ∀ name, h.binding = some name → isName name = true) →
    handlerEvery grammatical handler → (handlerAwaits handler = true → wait = true) →
    SafeLines wait ['}'] ['}'] ((handlerCode level n handler).chars width)
  | none, _, _, _ => .nil
  | some ⟨none, body⟩, _, h, waits =>
    .clauseCode (.of_harmless (by decide)) (bodySafe_code wait (level + 1) n body h waits)
  | some ⟨some name, body⟩, named, h, waits =>
    .clauseCode (.catchHead (named _ rfl name rfl))
      (bodySafe_code wait (level + 1) n body h waits)

theorem cleanupSafe_code (wait : Bool) (level n : Nat) : ∀ cleanup : Option (List Statement),
    cleanupEvery grammatical cleanup → (cleanupAwaits cleanup = true → wait = true) →
    SafeLines wait ['}'] ['}'] ((cleanupCode level n cleanup).chars width)
  | none, _, _ => .nil
  | some body, h, waits =>
    .clauseCode (.of_harmless (by decide)) (bodySafe_code wait (level + 1) n body h waits)

theorem Routine.safe_code (level n : Nat) (keyword : Bool) : ∀ r : Routine, r.Formed →
    r.Every grammatical →
    Safe (Routine.Place keyword) .still .still [] [] ((r.code level n keyword).chars width)
  | ⟨name, params, _, body, async⟩, formed, h => by
    have inside := paramsSafe_code level n params formed.2 h.1
    have below := bodySafe_code true (level + 1) (n + temporaries (paramsVisits params)) body h.2
      fun _ => rfl
    exact .routineCode level keyword async formed.1 inside below

theorem methodsSafe_code (level n : Nat) : ∀ methods : List Routine,
    (∀ m ∈ methods, m.Formed) → routinesEvery grammatical methods →
    Safe InMembers .still .still [] [] ((methodsCode level n methods).chars width)
  | [], _, _ => .nil
  | [r], formed, h =>
    (r.safe_code level n false (formed r List.mem_cons_self) h.1).imp fun _ => .inr
  | r :: q :: rs, formed, h => by
    have newline : Safe InMembers .still .still [] [] "\n".toList := .of_harmless (by decide)
    have first := r.safe_code level n false (formed r List.mem_cons_self) h.1
    have rest := methodsSafe_code level (n + temporaries r.visits) (q :: rs)
      (fun m hm => formed m (List.mem_cons_of_mem _ hm)) h.2
    rw [methodsCode, chars_append, chars_text]
    exact (first.imp fun _ => .inr).append (newline.append rest)

theorem Parameter.safe_code (level n : Nat) : ∀ p : Parameter, p.Formed →
    paramsEvery grammatical [p] → SafeTerm true ((p.code level n).chars width)
  | ⟨name, _, none⟩, formed, _ => by
    simpa [Parameter.code] using Safe.bindingName formed.1
  | ⟨name, _, some value⟩, formed, h => by
    have equal : Safe (Permits true) .loose .fresh [] [] " = ".toList := .of_harmless (by decide)
    have whole := (Safe.bindingName formed.1).append
      (equal.append (value.safe_code true level n h.1 fun _ => rfl))
    simpa [Parameter.code] using whole

theorem paramsSafe_code (level n : Nat) : ∀ params : List Parameter,
    (∀ p ∈ params, p.Formed) → paramsEvery grammatical params →
    SafeTerm true ((paramsCode level n params).chars width)
  | [], _, _ => Safe.nil.relax (Nat.le_refl _) (by decide)
  | [p], formed, h => Parameter.safe_code level n p (formed p List.mem_cons_self) h
  | p :: q :: ps, formed, h => by
    have comma : Safe (Permits true) .loose .fresh [] [] ", ".toList := .of_harmless (by decide)
    obtain ⟨single, others⟩ := paramsEvery_cons.mp h
    have first := Parameter.safe_code level n p (formed p List.mem_cons_self) single
    have rest := paramsSafe_code level (n + temporaries (paramsVisits [p])) (q :: ps)
      (fun r hr => formed r (List.mem_cons_of_mem _ hr)) others
    rw [paramsCode, chars_append, chars_text]
    exact first.append (comma.append rest)

end

end

/-! ## Programs -/

theorem programSafe_code (width n : Nat) : ∀ statements : List Statement,
    bodyEvery grammatical statements →
    SafeLines true [] [] ((programCode n statements).chars width)
  | [], _ => .nil
  | [s], h => by
    simpa [programCode] using s.safe_code true .plain 0 n h.1 fun _ => rfl
  | s :: t :: ss, h => by
    have line : SafeLines true [] []
        (Layout.chars width (if s.isDeclaration then [.text "\n"] else [])) := by
      cases s.isDeclaration with
      | false => exact .nil
      | true => simpa using (.of_harmless (by decide) : SafeLines true [] [] "\n".toList)
    have first : SafeLines true [] [] ((s.code .plain 0 n).chars width) :=
      s.safe_code true .plain 0 n h.1 fun _ => rfl
    have rest := programSafe_code width (n + temporaries s.visits) (t :: ss) h.2
    rw [programCode, chars_append, chars_append]
    exact (first.append line).append rest

/-- A text that is safe where nothing is open around it. -/
theorem Js.SafeLines.awaitOwners {text : String} (h : SafeLines true [] [] text.toList) :
    ∃ owners, awaitOwners text = some owners ∧ some (.arrow false) ∉ owners := by
  obtain ⟨as, cut, keeps⟩ := h
  obtain ⟨word, as', -, whole, ran⟩ := cut ' ' [] [] rfl
  obtain ⟨-, -, added, owners, none⟩ := Keeps.balanced_iff.mp keeps Reader.start
    (fun _ => by simp [Reader.start, Scope.owner?]) fun _ => by simp [Reader.start, Still]
  refine ⟨added, ?_, none⟩
  have read : Splitter.start.run text.toList = some (⟨⟨[Scanner.floor], .none⟩, word⟩, as') := ran
  rw [Js.awaitOwners, read, Option.map_some, whole, flush_nil, List.nil_append, owners]
  rfl

theorem awaitOwners_generate {options : Options} {statements : List Statement} {code : String}
    (h : bodyEvery grammatical statements) (ok : generate options statements = .ok code) :
    ∃ owners, awaitOwners code = some owners ∧ some (.arrow false) ∉ owners := by
  have strict : SafeLines true [] [] (prologue options.strict).toList := by
    cases options.strict <;> exact .of_harmless (by decide)
  apply Js.SafeLines.awaitOwners
  rw [toList_of_generate ok]
  exact strict.append (programSafe_code options.indent 0 statements h)

/-! ## The form of a selection -/

def selectionHead (awaits : Bool) : String :=
  if awaits then "await (async () => \x7b" else "(() => \x7b"

/-- The code of a selection is a function that is called at once. -/
theorem Expr.exists_chars_select {s : Span} {subject : Expr} {arms : List Arm}
    (h : (Expr.select s subject arms).Every grammatical) (level n width : Nat) :
    ∃ body, Js.Balanced body ∧ ((Expr.select s subject arms).code level n).chars width =
      (selectionHead (Expr.select s subject arms).awaits).toList ++ (body ++ "\x7d)()".toList) := by
  refine ⟨_, Expr.balanced_selectionBody width level n h, ?_⟩
  rw [Expr.code_select, chars_selectionCode, Expr.awaits]
  cases subject.awaits || armsAwait arms <;> simp [selectionHead]

theorem grammatical_bare : grammatical.Bare := by
  intro e pattern
  cases e with
  | literal => rfl
  | _ => exact pattern.elim

/-- No `await` of compiled code belongs to a plain arrow function, wherever it comes from. On
every level and with every temporary, a selection of the program in which nothing waits, the
functions and classes declared in it apart, is a plain arrow function that is called at once,
and every other one is an async arrow function that is called and waited for. -/
theorem await_never_in_plain_arrow (options : Options) (source code : String)
    (compiled : compile options source = .ok code) :
    (∃ owners, awaitOwners code = some owners ∧ some (.arrow false) ∉ owners) ∧
    ∀ t ∈ (parse source).statements, ∀ s subject arms,
      (Node.statement t).Below (.expr (.select s subject arms)) → ∀ level n width,
      ∃ body, Js.Balanced body ∧
        (¬(Node.expr (.select s subject arms)).Waits →
          ((Expr.select s subject arms).code level n).chars width =
            "(() => \x7b".toList ++ (body ++ "\x7d)()".toList)) ∧
        ((Node.expr (.select s subject arms)).Waits →
          ((Expr.select s subject arms).code level n).chars width =
            "await (async () => \x7b".toList ++ (body ++ "\x7d)()".toList)) := by
  obtain ⟨ok, generated⟩ := compile_eq_ok compiled
  have formed := grammatical_of_parse ok
  refine ⟨awaitOwners_generate formed generated, ?_⟩
  intro t member s subject arms below level n width
  have whole : (Node.statement t).Every grammatical := bodyEvery_iff.mp formed t member
  have every : (Expr.select s subject arms).Every grammatical :=
    (whole.below grammatical_bare below).resolve_right id
  obtain ⟨body, balanced, text⟩ := Expr.exists_chars_select every level n width
  refine ⟨body, balanced, fun calm => ?_, fun waits => ?_⟩
  · rw [← Expr.awaits_iff, Bool.not_eq_true] at calm
    rw [text, calm]
    rfl
  · rw [text, (Expr.awaits_iff _).mpr waits]
    rfl

/-- A selection in which nothing waits stands beside an `await`, in one that waits. -/
theorem await_never_in_plain_arrow_nested :
    ∃ code, compile ⟨0, false⟩
        "match x \x7b default -> f(await y, match z \x7b default -> w \x7d) \x7d;" = .ok code ∧
      awaitOwners code = some [none, some (.arrow true)] ∧
      (∃ owners, awaitOwners code = some owners ∧ some (.arrow false) ∉ owners) ∧
      ∃ body, Js.Balanced body ∧ Layout.chars 0 (Expr.code 1 1 (.select ⟨32, 56, 1⟩
          (.ident ⟨38, 39, 1⟩ "z") [⟨none, .expression ⟨53, 54, 1⟩ (.ident ⟨53, 54, 1⟩ "w")⟩])) =
        "(() => \x7b".toList ++ (body ++ "\x7d)()".toList) := by
  have read : parse "match x \x7b default -> f(await y, match z \x7b default -> w \x7d) \x7d;" =
      ⟨[.expression ⟨0, 60, 1⟩ (.select ⟨0, 59, 1⟩ (.ident ⟨6, 7, 1⟩ "x")
        [⟨none, .expression ⟨21, 57, 1⟩ (.call ⟨21, 57, 1⟩ (.ident ⟨21, 22, 1⟩ "f")
          [.await ⟨23, 30, 1⟩ (.ident ⟨29, 30, 1⟩ "y"),
           .select ⟨32, 56, 1⟩ (.ident ⟨38, 39, 1⟩ "z")
            [⟨none, .expression ⟨53, 54, 1⟩ (.ident ⟨53, 54, 1⟩ "w")⟩]])⟩])], []⟩ := by
    with_unfolding_all rfl
  have compiled : compile ⟨0, false⟩
      "match x \x7b default -> f(await y, match z \x7b default -> w \x7d) \x7d;" = .ok
        ("await (async () => \x7b\nconst $match_0 = x;\nreturn f(await y, (() => \x7b\n"
          ++ "const $match_1 = z;\nreturn w;\n\x7d)());\n\x7d)();\n") := by
    rw [compile, read]
    rfl
  obtain ⟨owned, form⟩ := await_never_in_plain_arrow _ _ _ compiled
  rw [read] at form
  have below : ∀ s s' s'' s''' subject callee first inner, (Node.statement (.expression s (.select
      s' subject [⟨none, .expression s'' (.call s''' callee [first, inner])⟩]))).Below
        (.expr inner) :=
    fun _ _ _ _ _ _ _ _ => .deeper (.deeper (.deeper (.child (.head _)) (.tail _ (.head _)))
      (.head _)) (.tail _ (.tail _ (.head _)))
  obtain ⟨body, balanced, plain, -⟩ := form _ List.mem_cons_self _ _ _ (below ..) 1 1 0
  refine ⟨_, compiled, by decide +kernel, owned, body, balanced, plain ?_⟩
  rw [← Expr.awaits_iff]
  decide

end TwoScript
