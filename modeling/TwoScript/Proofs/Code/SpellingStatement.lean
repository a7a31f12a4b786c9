import TwoScript.Proofs.Code.Spelling

/-!
# Statements in generated code

The code of a statement is read as the tokens of its regrouping, whatever follows it.
The closing brace of a block is written with what comes next, so the code of an
alternative, a handler and a cleanup begins with the brace in front of it.
-/

namespace TwoScript

open Layout

/-- The text is read as shapes of the given kind, whatever follows it. -/
def ReadsAs (yields : List Shape → Prop) (cs : List Char) : Prop :=
  ∃ ts, yields ts ∧ Spells Anything cs ts

namespace Shape

def openingBrace : Shape := ⟨.leftBrace, String.ofList ['{'], none⟩

def closingBrace : Shape := ⟨.rightBrace, String.ofList ['}'], none⟩

def semicolon : Shape := ⟨.semicolon, String.ofList [';'], none⟩

def equalSign : Shape := ⟨.equal, String.ofList ['='], none⟩

end Shape

section

variable {width level : Nat} {f : List Char → Prop} {cs : List Char} {ts : List Shape}

/-! ## Lines -/

theorem chars_line (content : Layout) : (line level content).chars width =
    List.replicate (level * width) ' ' ++ (content.chars width ++ ['\n']) := by
  simp [line]

theorem Spells.indent (k : Nat) (h : Spells f cs ts) :
    Spells f (List.replicate k ' ' ++ cs) ts := by
  have blanks : Spells Anything (List.replicate k ' ') [] := by
    apply Spells.blanks
    intro c hc
    rw [List.eq_of_mem_replicate hc]
    rfl
  exact blanks.append_of_anything h

theorem Spells.newline (h : Spells f cs ts) (fits : ∀ rest, f ('\n' :: rest)) :
    Spells Anything (cs ++ ['\n']) ts := by
  have whole := h.append (Spells.blank (c := '\n') rfl) fun rest _ => fits rest
  rwa [List.append_nil] at whole

/-- A line is read as what it holds. -/
theorem Spells.line {content : Layout} (h : Spells f (content.chars width) ts)
    (fits : ∀ rest, f ('\n' :: rest)) :
    Spells Anything ((Layout.line level content).chars width) ts := by
  rw [chars_line]
  exact (h.newline fits).indent _

/-- A line of fixed text is read as its marks. -/
theorem Spells.textLine (ms : List Mark) {text : String} (same : text.toList = ms.flatMap Mark.chars)
    (h : Mark.fit ms = true) :
    Spells Anything ((Layout.textLine level text).chars width) (ms.flatMap Mark.shapes) := by
  refine Spells.line (f := Anything) ?_ fun _ => trivial
  rw [chars_text, chars_nil, List.append_nil, same]
  exact Spells.marks ms h

theorem Spells.closingLine :
    Spells Anything ((Layout.textLine level "\x7d").chars width) [Shape.closingBrace] :=
  Spells.textLine [.symbol '}'] rfl rfl

/-! ## Blocks -/

/-- A body between the braces around it. The closing one is written with what follows. -/
theorem ReadsAs.braced {inside : List Shape → Prop} {opening body closing : List Char} {o : Shape}
    {os more : List Shape} (h : ReadsAs inside body) (opens : Spells Anything opening (os ++ [o]))
    (brace : o.kind = .leftBrace) (closes : Spells Anything closing (Shape.closingBrace :: more)) :
    ∃ us, Enclosed .leftBrace .rightBrace inside us ∧
      Spells Anything (opening ++ (body ++ closing)) (os ++ (us ++ more)) := by
  obtain ⟨ts, yields, spells⟩ := h
  refine ⟨o :: (ts ++ [Shape.closingBrace]), ⟨o, ts, Shape.closingBrace, rfl, brace, yields, rfl⟩, ?_⟩
  have whole := opens.append_of_anything (spells.append_of_anything closes)
  simpa using whole

/-! ## Simple statements -/

theorem Expr.follows_semicolon (e : Expr) (rest : List Char) : e.Follows (';' :: rest) :=
  (NumberEnds.cons (by decide) (by decide) rest).follows e

/-- A value in front of a semicolon. -/
theorem Expr.ReadAs.semicolon {e : Expr} (h : e.ReadAs cs) : ∃ vs r, e.regroup.Yields vs ∧
    r.kind = .semicolon ∧ Spells Anything (cs ++ [';']) (vs ++ [r]) := by
  obtain ⟨vs, yields, spells⟩ := h
  exact ⟨vs, Shape.semicolon, yields, rfl,
    spells.append (Spells.marks [.symbol ';'] rfl) fun rest _ => e.follows_semicolon rest⟩

theorem Expr.ReadAs.expressionStatement {s : Span} {e : Expr} {l : Layout}
    (h : e.ReadAs (l.chars width)) : ReadsAs (Statement.expression s e).regroup.Yields
      ((line level (l ++ [.text ";"])).chars width) := by
  obtain ⟨vs, r, yields, kind, spells⟩ := h.semicolon
  refine ⟨vs ++ [r], ⟨vs, r, rfl, yields, kind⟩, Spells.line (f := Anything) ?_ fun _ => trivial⟩
  simpa using spells

theorem Expr.ReadAs.returning {s : Span} {e : Expr} {l : Layout} (h : e.ReadAs (l.chars width)) :
    ReadsAs (Statement.returning s (some e)).regroup.Yields
      ((line level (.text "return " :: l ++ [.text ";"])).chars width) := by
  obtain ⟨vs, r, yields, kind, spells⟩ := h.semicolon
  have word : Spells Anything "return ".toList [wordShape "return"] :=
    Spells.marks [.word "return", .blank ' '] (by decide)
  refine ⟨wordShape "return" :: (vs ++ [r]), ⟨_, vs, r, rfl, rfl, yields, kind⟩,
    Spells.line (f := Anything) ?_ fun _ => trivial⟩
  simpa using word.append_of_anything spells

theorem readsAs_returning_none {s : Span} :
    ReadsAs (Statement.returning s none).regroup.Yields
      ((textLine level "return;").chars width) :=
  ⟨_, ⟨wordShape "return", Shape.semicolon, rfl, rfl, rfl⟩,
    Spells.textLine [.word "return", .symbol ';'] rfl (by decide)⟩

/-- The word of a declaration. -/
theorem Spells.declarationWord (constant : Bool) : ∃ k : Shape,
    (k.kind = .constWord ∧ constant = true ∨ k.kind = .letWord ∧ constant = false) ∧
      Spells Anything (if constant then "const " else "let ").toList [k] := by
  cases constant with
  | false =>
      exact ⟨wordShape "let", .inr ⟨rfl, rfl⟩, Spells.marks [.word "let", .blank ' '] (by decide)⟩
  | true =>
      exact ⟨wordShape "const", .inl ⟨rfl, rfl⟩,
        Spells.marks [.word "const", .blank ' '] (by decide)⟩

theorem readsAs_declare_none {s : Span} {constant : Bool} {name : String} {type : Option String}
    (formed : (Statement.declare s constant name type none).Formed)
    (free : isFreeName name = true) :
    ReadsAs (Statement.declare s constant name type none).regroup.Yields
      ((textLine level ((if constant then "const " else "let ") ++ bindingName name
        ++ ";")).chars width) := by
  obtain ⟨k, kind, word⟩ := Spells.declarationWord constant
  obtain ⟨t, identifier, text, named⟩ := Spells.name free
  have notConstant : constant = false := by
    cases constant with
    | false => rfl
    | true => exact absurd (formed.2 rfl) (by simp)
  have ends : Spells Anything [';'] [Shape.semicolon] := Spells.marks [.symbol ';'] rfl
  refine ⟨[k, t, Shape.semicolon],
    ⟨k, t, [], [], Shape.semicolon, rfl, ?_, identifier, text, rfl, rfl, rfl⟩,
    Spells.line (f := Anything) ?_ fun _ => trivial⟩
  · rcases kind with ⟨_, constant⟩ | letWord
    · rw [notConstant] at constant
      cases constant
    · exact .inr letWord
  · have whole := word.append_of_anything (named.append ends fun rest _ =>
      WordEnds.cons (by decide) rest)
    simpa using whole

theorem Expr.ReadAs.declare {s : Span} {constant : Bool} {name : String} {type : Option String}
    {e : Expr} {l : Layout} (h : e.ReadAs (l.chars width)) (free : isFreeName name = true) :
    ReadsAs (Statement.declare s constant name type (some e)).regroup.Yields
      ((line level (.text ((if constant then "const " else "let ") ++ bindingName name ++ " = ")
        :: l ++ [.text ";"])).chars width) := by
  obtain ⟨k, kind, word⟩ := Spells.declarationWord constant
  obtain ⟨t, identifier, text, named⟩ := Spells.name free
  obtain ⟨vs, r, yields, ends, spells⟩ := h.semicolon
  have equals : Spells Anything " = ".toList [Shape.equalSign] :=
    Spells.marks [.blank ' ', .symbol '=', .blank ' '] (by decide)
  refine ⟨k :: t :: (Shape.equalSign :: vs ++ [r]),
    ⟨k, t, [], _, r, rfl, ?_, identifier, text, rfl, ⟨_, vs, rfl, rfl, yields⟩, ends⟩,
    Spells.line (f := Anything) ?_ fun _ => trivial⟩
  · rcases kind with ⟨kind, rfl⟩ | letWord
    · exact .inl ⟨kind, rfl, rfl⟩
    · exact .inr letWord
  · have whole := word.append_of_anything ((named.append equals fun rest _ =>
      WordEnds.cons (by decide) _).append_of_anything spells)
    simpa using whole

/-! ## Conditionals -/

/-- The opening brace at the end of a line. -/
theorem Spells.openingBrace : Spells Anything [' ', '{', '\n'] [Shape.openingBrace] :=
  Spells.marks [.blank ' ', .symbol '{', .blank '\n'] (by decide)

theorem Statement.regroup_conditional (s : Span) (condition : Expr) (body : List Statement)
    (otherwise : Option Statement) : (Statement.conditional s condition body otherwise).regroup =
      .conditional s condition.regroup (bodyRegroup body) (otherwise.map regroup) := by
  cases otherwise <;> rfl

/-- The code of an alternative, from the brace in front of it on. -/
def OtherwiseReadAs (otherwise : Option Statement) (cs : List Char) : Prop :=
  ∃ os, otherwiseYields (otherwise.map Statement.regroup) os ∧
    Spells Anything cs (Shape.closingBrace :: os)

/-- A conditional from the parenthesis in front of its condition on. -/
theorem Expr.ReadAs.conditional {condition : Expr} {body : List Statement}
    {otherwise : Option Statement} {bs os : List Char} (h : condition.ReadAs cs)
    (inner : ReadsAs (bodyYields (bodyRegroup body)) bs) (last : OtherwiseReadAs otherwise os) :
    ∃ us, (∀ s k, k.kind = .ifWord →
        (Statement.conditional s condition body otherwise).regroup.Yields (k :: us)) ∧
      Spells Anything ('(' :: (cs ++ [')']) ++ ([' ', '{', '\n'] ++ (bs ++ os))) us := by
  obtain ⟨cts, yields, spells⟩ := h
  obtain ⟨ots, alternative, ends⟩ := last
  obtain ⟨cus, enclosed, around⟩ := Spells.parenthesized yields spells condition.follows_paren
  have opens : Spells Anything [' ', '{', '\n'] ([] ++ [Shape.openingBrace]) := Spells.openingBrace
  obtain ⟨bus, braced, behind⟩ := inner.braced opens rfl ends
  refine ⟨cus ++ (bus ++ ots), fun s k kind => ?_, around.append_of_anything behind⟩
  rw [Statement.regroup_conditional]
  exact ⟨k, cus, bus, ots, rfl, kind, .inl enclosed, braced, alternative⟩

theorem otherwiseReadAs_none :
    OtherwiseReadAs none ((textLine level "\x7d").chars width) :=
  ⟨[], rfl, Spells.closingLine⟩

theorem otherwiseReadAs_block {s : Span} {body : List Statement} {bs : List Char}
    (inner : ReadsAs (bodyYields (bodyRegroup body)) bs) :
    OtherwiseReadAs (some (.block s body)) ((textLine level "\x7d else \x7b").chars width
      ++ (bs ++ (textLine level "\x7d").chars width)) := by
  have opens : Spells Anything ((textLine level "\x7d else \x7b").chars width)
      ([Shape.closingBrace, wordShape "else"] ++ [Shape.openingBrace]) :=
    Spells.textLine [.symbol '}', .blank ' ', .word "else", .blank ' ', .symbol '{'] rfl
      (by decide)
  obtain ⟨us, braced, spells⟩ := inner.braced opens rfl Spells.closingLine
  refine ⟨wordShape "else" :: us, ⟨_, us, rfl, rfl, .inr rfl, braced⟩, ?_⟩
  simpa using spells

/-! ## Attempts -/

/-- The code of a part of an attempt, from the brace in front of it up to, but not including, its
closing one. -/
def PartReadAs (yields : List Shape → Prop) (cs : List Char) : Prop :=
  ∃ us hs, yields hs ∧ us ++ [Shape.closingBrace] = Shape.closingBrace :: hs ∧ Spells Anything cs us

theorem partReadAs_nil {yields : List Shape → Prop} (h : yields []) : PartReadAs yields [] :=
  ⟨[], [], h, rfl, Spells.nil⟩

/-- A part that is a word, perhaps more, and a body. -/
theorem ReadsAs.part {inside : List Shape → Prop} {opening bs : List Char} {os : List Shape}
    (inner : ReadsAs inside bs)
    (opens : Spells Anything opening (Shape.closingBrace :: (os ++ [Shape.openingBrace]))) :
    PartReadAs (fun hs => ∃ ks, hs = os ++ ks ∧ Enclosed .leftBrace .rightBrace inside ks)
      (opening ++ bs) := by
  obtain ⟨ts, yields, spells⟩ := inner
  refine ⟨_, os ++ (Shape.openingBrace :: (ts ++ [Shape.closingBrace])),
    ⟨_, rfl, _, ts, _, rfl, rfl, yields, rfl⟩, ?_, opens.append_of_anything spells⟩
  simp

theorem handlerReadAs_unnamed {body : List Statement} {bs : List Char}
    (inner : ReadsAs (bodyYields (bodyRegroup body)) bs) :
    PartReadAs (handlerYields (handlerRegroup (some ⟨none, body⟩)))
      ((textLine level "\x7d catch \x7b").chars width ++ bs) := by
  have opens : Spells Anything ((textLine level "\x7d catch \x7b").chars width)
      (Shape.closingBrace :: ([wordShape "catch"] ++ [Shape.openingBrace])) :=
    Spells.textLine [.symbol '}', .blank ' ', .word "catch", .blank ' ', .symbol '{'] rfl
      (by decide)
  obtain ⟨us, _, ⟨ks, rfl, enclosed⟩, same, spells⟩ := inner.part opens
  exact ⟨us, _, ⟨_, [], ks, rfl, rfl, rfl, enclosed⟩, same, spells⟩

theorem handlerReadAs_named {name : String} {body : List Statement} {bs : List Char}
    (free : isFreeName name = true) (inner : ReadsAs (bodyYields (bodyRegroup body)) bs) :
    PartReadAs (handlerYields (handlerRegroup (some ⟨some name, body⟩)))
      ((textLine level ("\x7d catch (" ++ bindingName name ++ ") \x7b")).chars width ++ bs) := by
  obtain ⟨t, identifier, text, named⟩ := Spells.name free
  have front : Spells Anything "\x7d catch ".toList [Shape.closingBrace, wordShape "catch"] :=
    Spells.marks [.symbol '}', .blank ' ', .word "catch", .blank ' '] (by decide)
  obtain ⟨_, ⟨l, ms, r, rfl, opening, rfl, closing⟩, around⟩ :
      ∃ us, Enclosed .leftParen .rightParen (· = [t]) us ∧
        Spells Anything ('(' :: ((bindingName name).toList ++ [')'])) us :=
    Spells.parenthesized rfl named (WordEnds.cons (by decide))
  have opens : Spells Anything
      ((textLine level ("\x7d catch (" ++ bindingName name ++ ") \x7b")).chars width)
      (Shape.closingBrace :: ([wordShape "catch", l, t, r] ++ [Shape.openingBrace])) := by
    have behind := Spells.marks [.blank ' ', .symbol '{'] (by decide)
    refine Spells.line (f := Anything) ?_ fun _ => trivial
    have whole := front.append_of_anything (around.append_of_anything behind)
    simpa [Mark.chars, Mark.shapes, symbol?, Shape.openingBrace] using whole
  obtain ⟨us, _, ⟨ks, rfl, enclosed⟩, same, spells⟩ := inner.part opens
  exact ⟨us, _, ⟨_, [l, t, r], ks, rfl, rfl, ⟨l, t, r, rfl, opening, identifier, text, closing⟩,
    enclosed⟩, same, spells⟩

theorem cleanupReadAs {body : List Statement} {bs : List Char}
    (inner : ReadsAs (bodyYields (bodyRegroup body)) bs) :
    PartReadAs (cleanupYields (cleanupRegroup (some body)))
      ((textLine level "\x7d finally \x7b").chars width ++ bs) := by
  have opens : Spells Anything ((textLine level "\x7d finally \x7b").chars width)
      (Shape.closingBrace :: ([wordShape "finally"] ++ [Shape.openingBrace])) :=
    Spells.textLine [.symbol '}', .blank ' ', .word "finally", .blank ' ', .symbol '{'] rfl
      (by decide)
  obtain ⟨us, _, ⟨ks, rfl, enclosed⟩, same, spells⟩ := inner.part opens
  exact ⟨us, _, ⟨_, ks, rfl, rfl, enclosed⟩, same, spells⟩

theorem readsAs_attempt {s : Span} {body : List Statement} {handler : Option Handler}
    {cleanup : Option (List Statement)} {bs hs fs : Layout}
    (inner : ReadsAs (bodyYields (bodyRegroup body)) (bs.chars width))
    (middle : PartReadAs (handlerYields (handlerRegroup handler)) (hs.chars width))
    (last : PartReadAs (cleanupYields (cleanupRegroup cleanup)) (fs.chars width))
    (some : ¬(handler.isNone = true ∧ cleanup.isNone = true)) :
    ReadsAs (Statement.attempt s body handler cleanup).regroup.Yields
      ((textLine level "try \x7b" ++ bs ++ hs ++ fs ++ textLine level "\x7d").chars width) := by
  obtain ⟨ts, yields, spells⟩ := inner
  obtain ⟨us, hts, caught, handled, handling⟩ := middle
  obtain ⟨vs, fts, done, cleaned, cleaning⟩ := last
  have opens : Spells Anything ((textLine level "try \x7b").chars width)
      [wordShape "try", Shape.openingBrace] :=
    Spells.textLine [.word "try", .blank ' ', .symbol '{'] rfl (by decide)
  have closes : Spells Anything ((textLine level "\x7d").chars width) [Shape.closingBrace] :=
    Spells.closingLine
  have both : ¬((handlerRegroup handler).isNone = true ∧ (cleanupRegroup cleanup).isNone = true) := by
    rwa [isNone_handlerRegroup, isNone_cleanupRegroup]
  refine ⟨_, ⟨wordShape "try", Shape.openingBrace :: (ts ++ [Shape.closingBrace]), hts, fts, rfl,
    rfl, ⟨_, ts, _, rfl, rfl, yields, rfl⟩, caught, done, both⟩, ?_⟩
  have whole := opens.append_of_anything (spells.append_of_anything
    (handling.append_of_anything (cleaning.append_of_anything closes)))
  -- The braces move from the beginning of each part to the end of the one in front of it.
  have braces : us ++ (vs ++ [Shape.closingBrace]) = Shape.closingBrace :: (hts ++ fts) := by
    rw [cleaned, ← List.singleton_append, ← List.append_assoc, handled, List.cons_append]
  rw [braces] at whole
  simpa using whole

/-! ## Routines -/

theorem Spells.asyncWord (async : Bool) : ∃ as, asyncYields async as ∧
    Spells Anything (if async then "async " else "").toList as := by
  cases async with
  | false => exact ⟨[], rfl, Spells.nil⟩
  | true =>
      exact ⟨[wordShape "async"], ⟨_, rfl, rfl⟩, Spells.marks [.word "async", .blank ' '] (by decide)⟩

/-- A routine from its name on. -/
theorem readsAs_routine {name : String} {params : List Parameter} {returns : Option String}
    {body : List Statement} {async : Bool} {t : Shape} {ns ps bs : List Char} {ts : List Shape}
    (identifier : t.kind = .identifier) (text : t.text = name) (named : Spells WordEnds ns [t])
    (yields : paramsYield (paramsRegroup params) ts) (spells : Spells NumberEnds ps ts)
    (inner : ReadsAs (bodyYields (bodyRegroup body)) bs) :
    ReadsAs (Routine.mk name params returns body async).regroup.Yields
      (ns ++ ('(' :: (ps ++ [')']) ++ ([' ', '{', '\n']
        ++ (bs ++ (textLine level "\x7d").chars width)))) := by
  obtain ⟨us, enclosed, around⟩ := Spells.parenthesized yields spells
    (NumberEnds.cons (by decide) (by decide))
  have opens : Spells Anything [' ', '{', '\n'] ([] ++ [Shape.openingBrace]) := Spells.openingBrace
  obtain ⟨vs, braced, behind⟩ := inner.braced opens rfl Spells.closingLine
  refine ⟨t :: (us ++ vs), ⟨t, us, [], vs, rfl, identifier, text, enclosed, rfl, braced⟩, ?_⟩
  have whole := named.append (around.append_of_anything behind) fun rest _ =>
    WordEnds.cons (by decide) _
  simpa using whole

theorem readsAs_function {s : Span} {name : String} {params : List Parameter}
    {returns : Option String} {body : List Statement} {async : Bool} {ps bs : Layout}
    {ts : List Shape} (free : isFreeName name = true)
    (yields : paramsYield (paramsRegroup params) ts)
    (spells : Spells NumberEnds (ps.chars width) ts)
    (inner : ReadsAs (bodyYields (bodyRegroup body)) (bs.chars width)) :
    ReadsAs (Statement.function s ⟨name, params, returns, body, async⟩).regroup.Yields
      ((bracedCode level (signatureCode async ("function " ++ bindingName name) ps) bs
        (textLine level "\x7d")).chars width) := by
  obtain ⟨t, identifier, text, named⟩ := Spells.name free
  obtain ⟨rs, routine, behind⟩ : ReadsAs (Routine.mk name params returns body async).regroup.Yields _ :=
    readsAs_routine identifier text named yields spells inner
  obtain ⟨as, asynchronous, before⟩ := Spells.asyncWord async
  have word : Spells Anything "function ".toList [wordShape "function"] :=
    Spells.marks [.word "function", .blank ' '] (by decide)
  refine ⟨as ++ wordShape "function" :: rs, ⟨as, _, rs, rfl, asynchronous, rfl, routine⟩, ?_⟩
  have whole := (before.append_of_anything (word.append_of_anything behind)).indent (level * width)
  simpa [bracedCode, signatureCode, chars_line] using whole

theorem readsAs_class {s : Span} {name : String} {methods : List Routine} {ms : Layout}
    (free : isFreeName name = true)
    (inner : ReadsAs (methodsYield (routinesRegroup methods)) (ms.chars width)) :
    ReadsAs (Statement.classDecl s name methods).regroup.Yields
      ((bracedCode level [.text ("class " ++ bindingName name)] ms
        (textLine level "\x7d")).chars width) := by
  obtain ⟨t, identifier, text, named⟩ := Spells.name free
  have word : Spells Anything "class ".toList [wordShape "class"] :=
    Spells.marks [.word "class", .blank ' '] (by decide)
  have opens : Spells Anything [' ', '{', '\n'] ([] ++ [Shape.openingBrace]) :=
    Spells.openingBrace
  have closes : Spells Anything ((textLine level "\x7d").chars width) [Shape.closingBrace] :=
    Spells.closingLine
  obtain ⟨us, braced, behind⟩ := inner.braced opens rfl closes
  refine ⟨wordShape "class" :: t :: us, ⟨_, t, us, rfl, rfl, identifier, text, braced⟩, ?_⟩
  have whole := (word.append_of_anything (named.append behind fun rest _ =>
    WordEnds.cons (by decide) _)).indent (level * width)
  simpa [bracedCode, chars_line] using whole

/-- A parameter in front of a comma or a parenthesis. -/
theorem readsAs_parameter {p : Parameter} {n : Nat} (free : p.Spelled)
    (value : ∀ e, p.default = some e → e.ReadAs ((e.code level n).chars width)) :
    ∃ ts, p.regroup.Yields ts ∧ Spells NumberEnds ((p.code level n).chars width) ts := by
  obtain ⟨t, identifier, text, named⟩ := Spells.name free
  obtain ⟨name, type, _ | e⟩ := p
  · refine ⟨[t], ⟨t, [], [], rfl, identifier, text, rfl, rfl⟩, ?_⟩
    simpa [Parameter.code] using named.mono fun rest ends => ends.1
  · obtain ⟨vs, yields, spells⟩ := value e rfl
    have equals : Spells Anything " = ".toList [Shape.equalSign] :=
      Spells.marks [.blank ' ', .symbol '=', .blank ' '] (by decide)
    refine ⟨t :: Shape.equalSign :: vs,
      ⟨t, [], _, rfl, identifier, text, rfl, ⟨_, vs, rfl, rfl, yields⟩⟩, ?_⟩
    have whole := (named.append equals fun rest _ => WordEnds.cons (by decide) _).append_of_anything
      (spells.mono fun rest ends => NumberEnds.follows ends e)
    simpa [Parameter.code] using whole

/-- Parameters with commas between them. -/
theorem readsAs_params {n : Nat} : ∀ params : List Parameter, (∀ p ∈ params, p.Spelled) →
    paramsEvery spelled params → ∃ ts, paramsYield (paramsRegroup params) ts ∧
      Spells NumberEnds ((paramsCode level n params).chars width) ts := by
  intro params free every
  rw [paramsRegroup_eq_map]
  have values : ∀ p ∈ params, ∀ m e, p.default = some e →
      e.ReadAs ((e.code level m).chars width) := fun p hp m e given =>
    Expr.readAs_code level m e (paramsEvery_iff.mp every p hp e given)
  clear every
  induction params generalizing n with
  | nil => exact ⟨[], rfl, by simpa [paramsCode] using Spells.nil⟩
  | cons p params ih =>
      obtain ⟨ls, yields, spells⟩ :=
        readsAs_parameter (free p (by simp)) (values p (by simp) n)
      cases params with
      | nil => exact ⟨ls, yields, spells⟩
      | cons q qs =>
          obtain ⟨rs, rest, others⟩ := ih (n := n + temporaries (paramsVisits [p]))
            (fun x hx => free x (List.mem_cons_of_mem _ hx))
            (fun x hx => values x (List.mem_cons_of_mem _ hx))
          have comma : Spells Anything ", ".toList [⟨.comma, String.ofList [','], none⟩] :=
            Spells.marks [.symbol ',', .blank ' '] (by decide)
          refine ⟨_, ⟨ls, ⟨.comma, String.ofList [','], none⟩, rs, rfl, yields, rfl, rest⟩, ?_⟩
          rw [paramsCode, chars_append, chars_text]
          exact spells.append (comma.append_of_anything others) fun _ _ =>
            NumberEnds.cons (by decide) (by decide) _

/-- A method in front of others. -/
theorem readsAs_method {r : Routine} {others : List Routine} {n : Nat} {os : List Char}
    (formed : r.Formed) (free : ∀ p ∈ r.params, p.Spelled) (every : paramsEvery spelled r.params)
    (inner : ReadsAs (bodyYields (bodyRegroup r.body))
      ((bodyCode (level + 1) (n + temporaries (paramsVisits r.params)) r.body).chars width))
    (rest : ReadsAs (methodsYield (routinesRegroup others)) os) :
    ReadsAs (methodsYield (routinesRegroup (r :: others)))
      ((r.code level n false).chars width ++ os) := by
  obtain ⟨name, params, returns, body, async⟩ := r
  have named := Spells.word name (isWord_of_isName formed.1)
  obtain ⟨ts, yields, spells⟩ := readsAs_params params free every
  obtain ⟨rs, routine, behind⟩ : ReadsAs (Routine.mk name params returns body async).regroup.Yields _ :=
    readsAs_routine (wordShape_kind_of_isName formed.1) rfl named yields spells inner
  obtain ⟨as, asynchronous, before⟩ := Spells.asyncWord async
  obtain ⟨us, later, more⟩ := rest
  refine ⟨as ++ ([] ++ (rs ++ us)), ⟨as, [], rs, us, rfl, asynchronous, .inl rfl, routine, later⟩, ?_⟩
  have whole := ((before.append_of_anything behind).indent (level * width)).append_of_anything more
  simpa [Routine.code, bracedCode, signatureCode, chars_line] using whole

/-! ## Statements -/

theorem readsAs_block {s : Span} {body : List Statement} {bs : Layout}
    (inner : ReadsAs (bodyYields (bodyRegroup body)) (bs.chars width)) :
    ReadsAs (Statement.block s body).regroup.Yields
      ((textLine level "\x7b" ++ bs ++ textLine level "\x7d").chars width) := by
  have opens : Spells Anything ((textLine level "\x7b").chars width) ([] ++ [Shape.openingBrace]) :=
    Spells.textLine [.symbol '{'] rfl rfl
  have closes : Spells Anything ((textLine level "\x7d").chars width) [Shape.closingBrace] :=
    Spells.closingLine
  obtain ⟨us, braced, spells⟩ := inner.braced opens rfl closes
  refine ⟨us, braced, ?_⟩
  simpa using spells

theorem readsAs_conditional {s : Span} {condition : Expr} {body : List Statement}
    {otherwise : Option Statement} {cs bs os : Layout} (h : condition.ReadAs (cs.chars width))
    (inner : ReadsAs (bodyYields (bodyRegroup body)) (bs.chars width))
    (last : OtherwiseReadAs otherwise (os.chars width)) :
    ReadsAs (Statement.conditional s condition body otherwise).regroup.Yields
      (Layout.chars width (.indent level :: .text "if (" :: cs ++ .text ") \x7b\n" :: bs ++ os)) := by
  obtain ⟨us, yields, spells⟩ := h.conditional inner last
  have word : Spells Anything "if ".toList [wordShape "if"] :=
    Spells.marks [.word "if", .blank ' '] (by decide)
  refine ⟨wordShape "if" :: us, yields s _ rfl, ?_⟩
  simpa using (word.append_of_anything spells).indent (level * width)

theorem otherwiseReadAs_conditional {s : Span} {condition : Expr} {body : List Statement}
    {otherwise : Option Statement} {cs bs os : Layout} (h : condition.ReadAs (cs.chars width))
    (inner : ReadsAs (bodyYields (bodyRegroup body)) (bs.chars width))
    (last : OtherwiseReadAs otherwise (os.chars width)) :
    OtherwiseReadAs (some (.conditional s condition body otherwise)) (Layout.chars width
      (.indent level :: .text "\x7d else if (" :: cs ++ .text ") \x7b\n" :: bs ++ os)) := by
  obtain ⟨us, yields, spells⟩ := h.conditional inner last
  have words : Spells Anything "\x7d else if ".toList
      [Shape.closingBrace, wordShape "else", wordShape "if"] :=
    Spells.marks [.symbol '}', .blank ' ', .word "else", .blank ' ', .word "if", .blank ' ']
      (by decide)
  refine ⟨wordShape "else" :: wordShape "if" :: us, ⟨_, _, rfl, rfl, .inl ?_, yields s _ rfl⟩, ?_⟩
  · rw [Statement.isConditional_regroup]
    rfl
  · simpa using (words.append_of_anything spells).indent (level * width)

mutual

theorem Statement.readsAs_code (level n : Nat) : ∀ s : Statement, s.Every spelled →
    ReadsAs s.regroup.Yields ((s.code .plain level n).chars width)
  | .function _ ⟨_, params, _, body, _⟩, h => by
    obtain ⟨ts, yields, spells⟩ := readsAs_params params h.1.2.2 h.2.1
    exact readsAs_function h.1.2.1 yields spells (bodyReadsAs_code _ _ body h.2.2)
  | .classDecl _ name methods, h =>
    readsAs_class h.1.2.1 (methodsReadsAs_code (level + 1) n methods h.1.1.2 h.1.2.2 h.2)
  | .declare _ _ _ _ none, h => readsAs_declare_none h.1 h.2
  | .declare _ _ _ _ (some value), h => (Expr.readAs_code level n value h.2).declare h.1.2
  | .conditional _ condition body none, h =>
    readsAs_conditional (Expr.readAs_code level n condition h.2.1)
      (bodyReadsAs_code _ _ body h.2.2) otherwiseReadAs_none
  | .conditional _ condition body (some otherwise), h =>
    readsAs_conditional (Expr.readAs_code level n condition h.2.1)
      (bodyReadsAs_code _ _ body h.2.2.1)
      (otherwiseReadAs_code _ _ otherwise (h.1.1 otherwise rfl) h.2.2.2)
  | .attempt _ body handler cleanup, h =>
    readsAs_attempt (bodyReadsAs_code _ _ body h.2.1)
      (handlerReadAs_code _ _ handler h.1.2 h.2.2.1) (cleanupReadAs_code _ _ cleanup h.2.2.2) h.1.1.1
  | .returning _ none, _ => readsAs_returning_none
  | .returning _ (some value), h => (Expr.readAs_code level n value h.2).returning
  | .block _ body, h => readsAs_block (bodyReadsAs_code (level + 1) n body h.2)
  | .expression _ value, h => (Expr.readAs_code level n value h.2).expressionStatement
  | .failed _, h => nomatch h.1

theorem bodyReadsAs_code (level n : Nat) : ∀ body : List Statement, bodyEvery spelled body →
    ReadsAs (bodyYields (bodyRegroup body)) ((bodyCode level n body).chars width)
  | [], _ => ⟨[], rfl, by simpa [bodyCode] using Spells.nil⟩
  | s :: ss, h => by
    obtain ⟨ls, yields, spells⟩ := Statement.readsAs_code level n s h.1
    obtain ⟨rs, rest, others⟩ := bodyReadsAs_code level (n + temporaries s.visits) ss h.2
    refine ⟨ls ++ rs, ⟨ls, rs, rfl, yields, rest⟩, ?_⟩
    rw [bodyCode, chars_append]
    exact spells.append_of_anything others

theorem otherwiseReadAs_code (level n : Nat) : ∀ s : Statement,
    s.isConditional = true ∨ s.isBlock = true → s.Every spelled →
    OtherwiseReadAs (some s) ((elseCode level n (some s)).chars width)
  | .conditional _ condition body none, _, h =>
    otherwiseReadAs_conditional (Expr.readAs_code level n condition h.2.1)
      (bodyReadsAs_code _ _ body h.2.2) otherwiseReadAs_none
  | .conditional _ condition body (some otherwise), _, h =>
    otherwiseReadAs_conditional (Expr.readAs_code level n condition h.2.1)
      (bodyReadsAs_code _ _ body h.2.2.1)
      (otherwiseReadAs_code _ _ otherwise (h.1.1 otherwise rfl) h.2.2.2)
  | .block _ body, _, h => by
    simpa [elseCode] using otherwiseReadAs_block (bodyReadsAs_code (level + 1) n body h.2)
  | .function _ _, other, _ | .classDecl _ _ _, other, _ | .declare _ _ _ _ _, other, _
  | .attempt _ _ _ _, other, _ | .returning _ _, other, _ | .expression _ _, other, _
  | .failed _, other, _ => by
    simp [Statement.isConditional, Statement.isBlock] at other

theorem handlerReadAs_code (level n : Nat) : ∀ handler : Option Handler,
    (∀ h, handler = some h → ∀ name, h.binding = some name → isFreeName name = true) →
    handlerEvery spelled handler →
    PartReadAs (handlerYields (handlerRegroup handler)) ((handlerCode level n handler).chars width)
  | none, _, _ => by
    rw [handlerCode, chars_nil]
    exact partReadAs_nil rfl
  | some ⟨none, body⟩, _, h => by
    simpa [handlerCode] using handlerReadAs_unnamed (bodyReadsAs_code (level + 1) n body h)
  | some ⟨some name, body⟩, free, h => by
    rw [handlerCode, chars_append]
    exact handlerReadAs_named (free _ rfl name rfl) (bodyReadsAs_code (level + 1) n body h)

theorem cleanupReadAs_code (level n : Nat) : ∀ cleanup : Option (List Statement),
    cleanupEvery spelled cleanup →
    PartReadAs (cleanupYields (cleanupRegroup cleanup)) ((cleanupCode level n cleanup).chars width)
  | none, _ => by
    rw [cleanupCode, chars_nil]
    exact partReadAs_nil rfl
  | some body, h => by
    rw [cleanupCode, chars_append]
    exact cleanupReadAs (bodyReadsAs_code (level + 1) n body h)

theorem methodsReadsAs_code (level n : Nat) : ∀ methods : List Routine,
    (∀ m ∈ methods, m.Formed) → (∀ m ∈ methods, ∀ p ∈ m.params, p.Spelled) →
    routinesEvery spelled methods →
    ReadsAs (methodsYield (routinesRegroup methods)) ((methodsCode level n methods).chars width)
  | [], _, _, _ => ⟨[], rfl, by simpa [methodsCode] using Spells.nil⟩
  | [⟨name, params, returns, body, async⟩], formed, free, h => by
    have inner := bodyReadsAs_code (level + 1) (n + temporaries (paramsVisits params)) body h.1.2
    have nothing : ReadsAs (methodsYield (routinesRegroup [])) [] := ⟨[], rfl, Spells.nil⟩
    have last := readsAs_method (formed _ List.mem_cons_self) (free _ List.mem_cons_self) h.1.1
      inner nothing
    rwa [List.append_nil] at last
  | ⟨name, params, returns, body, async⟩ :: q :: rs, formed, free, h => by
    have inner := bodyReadsAs_code (level + 1) (n + temporaries (paramsVisits params)) body h.1.2
    obtain ⟨us, later, spells⟩ := methodsReadsAs_code level
      (n + temporaries (Routine.mk name params returns body async).visits) (q :: rs)
      (fun m hm => formed m (List.mem_cons_of_mem _ hm))
      (fun m hm => free m (List.mem_cons_of_mem _ hm)) h.2
    have behind := readsAs_method (formed _ List.mem_cons_self) (free _ List.mem_cons_self) h.1.1
      inner ⟨us, later, (Spells.blank (c := '\n') rfl).append_of_anything spells⟩
    simpa [methodsCode] using behind

end

/-- The code of a program is read as the tokens of its regrouped statements. -/
theorem programReadsAs_code (n : Nat) : ∀ statements : List Statement,
    bodyEvery spelled statements →
    ReadsAs (bodyYields (bodyRegroup statements)) ((programCode n statements).chars width)
  | [], _ => ⟨[], rfl, by simpa [programCode] using Spells.nil⟩
  | [s], h => by
    obtain ⟨ls, yields, spells⟩ := Statement.readsAs_code 0 n s h.1
    exact ⟨ls, ⟨ls, [], (List.append_nil ls).symm, yields, rfl⟩, spells⟩
  | s :: t :: ss, h => by
    obtain ⟨ls, yields, spells⟩ := Statement.readsAs_code 0 n s h.1
    obtain ⟨rs, rest, others⟩ := programReadsAs_code (n + temporaries s.visits) (t :: ss) h.2
    have between : Spells Anything
        (Layout.chars width (if s.isDeclaration then [.text "\n"] else [])) [] := by
      split
      · exact Spells.blanks (by simp [isBlank])
      · exact Spells.blanks (by simp)
    refine ⟨ls ++ rs, ⟨ls, rs, rfl, yields, rest⟩, ?_⟩
    rw [programCode, chars_append, chars_append, List.append_assoc]
    exact spells.append_of_anything (between.append_of_anything others)

end

end TwoScript
