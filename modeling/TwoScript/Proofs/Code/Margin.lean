import TwoScript.Code.Generate
import TwoScript.Proofs.Code.Spelling

/-!
# Margins of generated code

The width of a level is seen in the margins of generated lines and nowhere else. Every
piece of indentation stands where a line begins, so two renderings of one layout are the
same text once the blanks in front of each line are taken away. Main statement:
programs are refused alike under all options, and otherwise their lines agree up to
leading blanks; strict mode adds its directive in front.
-/

namespace TwoScript

open Layout

/-! ## Text without margins -/

/-- Whether only blanks stand in the last line of a text, when `margin` says so of the line
in which the text begins. -/
def atMargin (margin : Bool) : List Char → Bool
  | [] => margin
  | c :: cs => atMargin (c == '\n' || margin && c == ' ') cs

/-- A text without the blanks in front of its lines. The first line counts only if the
text begins at a margin. -/
def unindent (margin : Bool) : List Char → List Char
  | [] => []
  | c :: cs =>
    if margin && c == ' ' then unindent true cs else c :: unindent (c == '\n') cs

theorem atMargin_append (margin : Bool) (a b : List Char) :
    atMargin margin (a ++ b) = atMargin (atMargin margin a) b := by
  induction a generalizing margin with
  | nil => rfl
  | cons c cs ih => rw [List.cons_append, atMargin, ih, atMargin]

theorem unindent_append (margin : Bool) (a b : List Char) :
    unindent margin (a ++ b) = unindent margin a ++ unindent (atMargin margin a) b := by
  induction a generalizing margin with
  | nil => rfl
  | cons c cs ih =>
      rw [List.cons_append, unindent, unindent, atMargin]
      by_cases blank : (margin && c == ' ') = true
      · rw [if_pos blank, if_pos blank, ih, blank, Bool.or_true]
      · rw [if_neg blank, if_neg blank, ih, Bool.eq_false_iff.mpr blank, Bool.or_false,
          List.cons_append]

theorem atMargin_blanks (k : Nat) : atMargin true (List.replicate k ' ') = true := by
  induction k with
  | zero => rfl
  | succ k ih => rw [List.replicate_succ, atMargin]; exact ih

theorem unindent_blanks (k : Nat) : unindent true (List.replicate k ' ') = [] := by
  induction k with
  | zero => rfl
  | succ k ih => rw [List.replicate_succ, unindent]; exact ih

def linesOf (text : List Char) : List (List Char) :=
  text.splitOn '\n'

def withoutMargin (line : List Char) : List Char :=
  line.dropWhile (· == ' ')

theorem linesOf_cons (c : Char) (cs : List Char) :
    ∃ l ls, linesOf cs = l :: ls ∧
      linesOf (c :: cs) = if c == '\n' then [] :: l :: ls else (c :: l) :: ls := by
  cases split : linesOf cs with
  | nil => exact absurd split (List.splitOnP_ne_nil _ _)
  | cons l ls =>
      refine ⟨l, ls, rfl, ?_⟩
      rw [linesOf, List.splitOn_cons_eq_if_modifyHead, ← linesOf, split]
      rfl

/-- Taking away the margins of a text takes away the margin of each of its lines. -/
theorem linesOf_unindent (margin : Bool) (cs : List Char) :
    ∀ l ls, linesOf cs = l :: ls → linesOf (unindent margin cs) =
      (if margin then withoutMargin l else l) :: ls.map withoutMargin := by
  induction cs generalizing margin with
  | nil =>
      intro l ls split
      obtain ⟨rfl, rfl⟩ : [] = l ∧ [] = ls := by simpa [linesOf] using split
      cases margin <;> rfl
  | cons c cs ih =>
      intro l' ls' split
      obtain ⟨l, ls, rest, whole⟩ := linesOf_cons c cs
      rw [whole] at split
      rw [unindent]
      by_cases newline : c = '\n'
      · obtain ⟨rfl, rfl⟩ : [] = l' ∧ l :: ls = ls' := by simpa [newline] using split
        obtain ⟨m, ms, rest', whole'⟩ := linesOf_cons c (unindent (c == '\n') cs)
        rw [if_neg (by simp [newline]), whole', ← rest', ih _ l ls rest]
        cases margin <;> simp [newline, withoutMargin]
      · obtain ⟨rfl, rfl⟩ : c :: l = l' ∧ ls = ls' := by simpa [newline] using split
        by_cases blank : (margin && c == ' ') = true
        · rw [if_pos blank, ih true l ls rest]
          obtain ⟨rfl, rfl⟩ : margin = true ∧ c = ' ' := by simpa using blank
          simp [withoutMargin]
        · obtain ⟨m, ms, rest', whole'⟩ := linesOf_cons c (unindent (c == '\n') cs)
          rw [if_neg blank, whole']
          rw [ih _ l ls rest] at rest'
          obtain ⟨rfl, rfl⟩ : l = m ∧ ls.map withoutMargin = ms := by simpa [newline] using rest'
          cases margin <;> simp_all [withoutMargin]

/-- Texts that are the same without their margins have as many lines, and each line is the
same but for its margin. -/
theorem forall₂_linesOf {a b : List Char} (same : unindent true a = unindent true b) :
    List.Forall₂ (fun l l' => withoutMargin l = withoutMargin l') (linesOf a) (linesOf b) := by
  have trimmed : ∀ cs, linesOf (unindent true cs) = (linesOf cs).map withoutMargin := by
    intro cs
    cases split : linesOf cs with
    | nil => exact absurd split (List.splitOnP_ne_nil _ _)
    | cons l ls => rw [linesOf_unindent true cs l ls split]; rfl
  have equal : (linesOf a).map withoutMargin = (linesOf b).map withoutMargin := by
    rw [← trimmed, ← trimmed, same]
  rw [← List.forall₂_eq_eq_eq] at equal
  exact List.forall₂_map_right_iff.mp (List.forall₂_map_left_iff.mp equal)

/-! ## Layouts -/

/-- A piece of a line: without margins it is the same text at all widths, wherever it
begins. -/
structure Layout.Inline (l : Layout) : Prop where
  text : ∀ margin w w', unindent margin (l.chars w) = unindent margin (l.chars w')
  margin : ∀ margin w w', atMargin margin (l.chars w) = atMargin margin (l.chars w')

/-- Whole lines: without margins they are the same text at all widths, and what follows
begins a line. -/
structure Layout.Lines (l : Layout) : Prop where
  text : ∀ w w', unindent true (l.chars w) = unindent true (l.chars w')
  margin : ∀ w, atMargin true (l.chars w) = true

namespace Layout

theorem Inline.text_cons (s : String) {l : Layout} (h : l.Inline) : Inline (.text s :: l) where
  text margin w w' := by
    rw [chars_text, chars_text, unindent_append, unindent_append, h.text _ w w']
  margin margin w w' := by
    rw [chars_text, chars_text, atMargin_append, atMargin_append, h.margin _ w w']

theorem Inline.nil : Inline [] where
  text _ _ _ := by rw [chars_nil, chars_nil]
  margin _ _ _ := by rw [chars_nil, chars_nil]

theorem Inline.single (s : String) : Inline [.text s] :=
  Inline.nil.text_cons s

theorem Inline.append {a b : Layout} (ha : a.Inline) (hb : b.Inline) : Inline (a ++ b) where
  text margin w w' := by
    rw [chars_append, chars_append, unindent_append, unindent_append, ha.text _ w w',
      ha.margin _ w w', hb.text _ w w']
  margin margin w w' := by
    rw [chars_append, chars_append, atMargin_append, atMargin_append, ha.margin _ w w',
      hb.margin _ w w']

theorem Lines.nil : Lines [] where
  text _ _ := by rw [chars_nil, chars_nil]
  margin _ := by rw [chars_nil]; rfl

theorem Lines.append {a b : Layout} (ha : a.Lines) (hb : b.Lines) : Lines (a ++ b) where
  text w w' := by
    rw [chars_append, chars_append, unindent_append, unindent_append, ha.text w w', ha.margin,
      ha.margin, hb.text w w']
  margin w := by rw [chars_append, atMargin_append, ha.margin, hb.margin]

def EndsLine (s : String) : Prop :=
  ∀ margin, atMargin margin s.toList = true

/-- The only place of indentation is in front of a line. -/
theorem Lines.opening {content : Layout} (level : Nat) (h : content.Inline) {s : String}
    (ends : EndsLine s) : Lines (.indent level :: content ++ [.text s]) where
  text w w' := by
    have within := h.append (Inline.single s)
    rw [List.cons_append, chars_indent, chars_indent, unindent_append, unindent_append,
      unindent_blanks, unindent_blanks, atMargin_blanks, atMargin_blanks, within.text _ w w']
  margin w := by
    rw [List.cons_append, chars_indent, atMargin_append, atMargin_blanks, chars_append,
      atMargin_append, chars_text, atMargin_append, ends, chars_nil]
    rfl

theorem Lines.line {content : Layout} (level : Nat) (h : content.Inline) :
    (line level content).Lines :=
  .opening level h fun margin => by cases margin <;> rfl

theorem Lines.textLine (level : Nat) (s : String) : (textLine level s).Lines :=
  .line level (.single s)

theorem Lines.emptyLine : Lines [.text "\n"] where
  text _ _ := by rw [chars_text, chars_text, chars_nil, chars_nil]
  margin _ := by rw [chars_text, chars_nil]; rfl

/-- Lines between the end of one line and the beginning of another are a piece of a line
again. -/
theorem Inline.around {body : Layout} (h : body.Lines) {first : String} (ends : EndsLine first)
    (level : Nat) (last : String) :
    Inline (.text first :: body ++ [.indent level, .text last]) where
  text margin w w' := by
    simp only [List.cons_append, chars_text, chars_append, chars_indent, chars_nil,
      unindent_append, ends margin, h.margin, h.text w w', unindent_blanks, atMargin_blanks]
  margin margin w w' := by
    simp only [List.cons_append, chars_text, chars_append, chars_indent, chars_nil,
      atMargin_append, ends margin, h.margin, atMargin_blanks]

theorem Inline.parenthesized {l : Layout} (h : l.Inline) (wrapped : Bool) :
    (parenthesized wrapped l).Inline := by
  cases wrapped with
  | false => exact h
  | true => exact (h.append (.single ")")).text_cons "("

end Layout

theorem Layout.Inline.unaryCode (op : UnaryOp) {l : Layout} (h : l.Inline) :
    (unaryCode op l).Inline := by
  unfold TwoScript.unaryCode
  split <;> exact h.text_cons _

/-! ## Selections -/

theorem Choice.lines_testsCode (level : Nat) (temp keyword : String)
    {tests : List (Layout × Layout)} (h : ∀ t ∈ tests, t.1.Inline ∧ t.2.Lines) :
    (testsCode level temp keyword tests).Lines := by
  induction tests generalizing keyword with
  | nil => exact .nil
  | cons test tests ih =>
      obtain ⟨pattern, body⟩ := h test List.mem_cons_self
      have rest := ih "\x7d else if" fun t ht => h t (List.mem_cons_of_mem _ ht)
      exact ((Lines.line level ((pattern.append (.single ") \x7b")).text_cons _)).append
        body).append rest

theorem Choice.lines_code (level : Nat) (temp : String) {c : Choice}
    (h : ∀ t ∈ c.tests, t.1.Inline ∧ t.2.Lines) (last : c.otherwise.Lines) :
    (c.code level temp).Lines := by
  unfold Choice.code
  split
  · exact last
  · exact (((Choice.lines_testsCode level temp "if" h).append (.textLine level _)).append
      last).append (.textLine level _)

theorem Layout.Inline.selectionCode (level : Nat) (temp : String) (awaits : Bool)
    {subject : Layout} {choice : Choice} (h : subject.Inline)
    (chosen : (choice.code (level + 1) temp).Lines) :
    (selectionCode level temp awaits subject choice).Inline := by
  have ends : EndsLine (if awaits then "await (async () => \x7b\n" else "(() => \x7b\n") := by
    intro margin
    cases awaits <;> cases margin <;> rfl
  have subject := Lines.line (level + 1)
    ((h.append (.single ";")).text_cons ("const " ++ temp ++ " = "))
  exact Inline.around (subject.append chosen) ends level "\x7d)()"

theorem Layout.Lines.braced {head body : Layout} (level : Nat) (h : head.Inline)
    (inside : body.Lines) : (bracedCode level head body (Layout.textLine level "\x7d")).Lines :=
  ((Lines.line level (h.append (.single " \x7b"))).append inside).append (.textLine level _)

/-- A condition in front of a block. -/
theorem Layout.Lines.condition {condition : Layout} (level : Nat) (first : String)
    (h : condition.Inline) :
    Lines (.indent level :: .text first :: condition ++ [.text ") \x7b\n"]) :=
  .opening level (h.text_cons first) fun margin => by cases margin <;> rfl

theorem Layout.Lines.terminated {l : Layout} (level : Nat) (first : String) (h : l.Inline) :
    (Layout.line level (.text first :: l ++ [.text ";"])).Lines :=
  .line level ((h.append (.single ";")).text_cons first)

/-! ## Trees -/

mutual

theorem Expr.inline_code (level n : Nat) : ∀ e : Expr, (e.code level n).Inline
  | .literal _ _ => .single _
  | .ident _ _ => .single _
  | .assign _ _ target value =>
    (Expr.inline_code level n target).append
      ((Expr.inline_code level (n + temporaries target.visits) value).text_cons _)
  | .binary _ _ left right =>
    ((Expr.inline_code level n left).parenthesized _).append
      (((Expr.inline_code level (n + temporaries left.visits) right).parenthesized _).text_cons _)
  | .unary _ op operand => .unaryCode op ((Expr.inline_code level n operand).parenthesized _)
  | .group _ inner => (Expr.inline_code level n inner).parenthesized true
  | .call _ callee args =>
    (((Expr.inline_code level n callee).parenthesized _).append
      ((argsInline_code level (n + temporaries callee.visits) args).text_cons _)).append
        (.single _)
  | .member _ object _ => ((Expr.inline_code level n object).parenthesized _).append (.single _)
  | .await _ operand => ((Expr.inline_code level n operand).parenthesized _).text_cons _
  | .select _ subject arms =>
    .selectionCode level (temporary n) _ (Expr.inline_code level (n + 1) subject)
      (Choice.lines_code (level + 1) (temporary n) (testsLines_code (level + 1) _ arms)
        (otherwiseLines_code _ (temporary n) _ arms))
  | .template _ parts => ((partsInline_code level n parts).append (.single _)).text_cons _

theorem argsInline_code (level n : Nat) : ∀ args : List Expr, (argsCode level n args).Inline
  | [] => .nil
  | [e] => Expr.inline_code level n e
  | e :: f :: es =>
    (Expr.inline_code level n e).append
      ((argsInline_code level (n + temporaries e.visits) (f :: es)).text_cons _)

theorem testsLines_code (level n : Nat) : ∀ arms : List Arm,
    ∀ t ∈ testsOf level n arms, t.1.Inline ∧ t.2.Lines
  | [] => by simp [testsOf]
  | ⟨none, _⟩ :: arms => testsLines_code level n arms
  | ⟨some pattern, body⟩ :: arms => by
    have first := Expr.inline_code level n pattern
    have inner := Statement.lines_code .arm (level + 1) (n + temporaries pattern.visits) body
    have rest := testsLines_code level
      (n + temporaries pattern.visits + temporaries body.visits) arms
    rw [testsOf]
    exact List.forall_mem_cons.mpr ⟨⟨first, inner⟩, rest⟩

theorem otherwiseLines_code (level : Nat) (temp : String) (n : Nat) : ∀ arms : List Arm,
    (otherwiseOf level temp n arms).Lines
  | [] => .textLine level _
  | ⟨none, body⟩ :: _ => Statement.lines_code .arm level n body
  | ⟨some _, _⟩ :: arms => otherwiseLines_code level temp n arms

theorem partsInline_code (level n : Nat) : ∀ parts : List Part, (partsCode level n parts).Inline
  | [] => .nil
  | .text _ :: parts => (partsInline_code level n parts).text_cons _
  | .expr e :: parts =>
    ((Expr.inline_code level n e).append
      ((partsInline_code level (n + temporaries e.visits) parts).text_cons _)).text_cons _

theorem Statement.lines_code (role : Role) (level n : Nat) : ∀ s : Statement,
    (s.code role level n).Lines
  | .function _ routine => Routine.lines_code level n true routine
  | .classDecl _ _ methods => .braced level (.single _) (methodsLines_code (level + 1) n methods)
  | .declare _ _ _ _ none => .textLine level _
  | .declare _ _ _ _ (some initial) => .terminated level _ (Expr.inline_code level n initial)
  | .conditional _ condition body otherwise => by
    have head := Lines.condition level "if (" (Expr.inline_code level n condition)
    have inner := bodyLines_code (level + 1) (n + temporaries condition.visits) body
    have rest := elseLines_code level
      (n + temporaries condition.visits + temporaries (bodyVisits body)) otherwise
    simpa [Statement.code] using (head.append inner).append rest
  | .attempt _ body handler cleanup =>
    ((((Lines.textLine level _).append (bodyLines_code (level + 1) n body)).append
      (handlerLines_code level _ handler)).append
        (cleanupLines_code level _ cleanup)).append (.textLine level _)
  | .returning _ none => .textLine level _
  | .returning _ (some value) => .terminated level _ (Expr.inline_code level n value)
  | .block _ body => by
    cases role with
    | plain =>
        exact ((Lines.textLine level _).append (bodyLines_code (level + 1) n body)).append
          (.textLine level _)
    | arm => exact bodyLines_code level n body
  | .expression _ value => by
    have inner := Expr.inline_code level n value
    cases role with
    | plain => exact .line level (inner.append (.single _))
    | arm => exact .terminated level _ inner
  | .failed _ => .nil

theorem bodyLines_code (level n : Nat) : ∀ body : List Statement, (bodyCode level n body).Lines
  | [] => .nil
  | s :: ss =>
    (Statement.lines_code .plain level n s).append
      (bodyLines_code level (n + temporaries s.visits) ss)

theorem elseLines_code (level n : Nat) : ∀ otherwise : Option Statement,
    (elseCode level n otherwise).Lines
  | none => .textLine level _
  | some s => by
    have inner := Statement.lines_code .plain (level + 1) n s
    have block := ((Lines.textLine level "\x7d else \x7b").append inner).append
      (.textLine level "\x7d")
    -- Only a conditional goes on in the line of the closing brace.
    cases s with
    | conditional _ condition body otherwise =>
        have head := Lines.condition level "\x7d else if (" (Expr.inline_code level n condition)
        have inner := bodyLines_code (level + 1) (n + temporaries condition.visits) body
        have rest := elseLines_code level
          (n + temporaries condition.visits + temporaries (bodyVisits body)) otherwise
        simpa [elseCode] using (head.append inner).append rest
    | block _ body =>
        exact ((Lines.textLine level _).append (bodyLines_code (level + 1) n body)).append
          (.textLine level _)
    | _ => exact block

theorem handlerLines_code (level n : Nat) : ∀ handler : Option Handler,
    (handlerCode level n handler).Lines
  | none => .nil
  | some ⟨none, body⟩ => (Lines.textLine level _).append (bodyLines_code (level + 1) n body)
  | some ⟨some _, body⟩ => (Lines.textLine level _).append (bodyLines_code (level + 1) n body)

theorem cleanupLines_code (level n : Nat) : ∀ cleanup : Option (List Statement),
    (cleanupCode level n cleanup).Lines
  | none => .nil
  | some body => (Lines.textLine level _).append (bodyLines_code (level + 1) n body)

theorem Routine.lines_code (level n : Nat) (keyword : Bool) : ∀ r : Routine,
    (r.code level n keyword).Lines
  | ⟨_, params, _, body, _⟩ => by
    have parameters := paramsInline_code level n params
    rw [Routine.code]
    exact .braced level ((parameters.append (.single ")")).text_cons _)
      (bodyLines_code (level + 1) _ body)

theorem methodsLines_code (level n : Nat) : ∀ methods : List Routine,
    (methodsCode level n methods).Lines
  | [] => .nil
  | [r] => Routine.lines_code level n false r
  | r :: q :: rs =>
    (Routine.lines_code level n false r).append
      (Lines.emptyLine.append (methodsLines_code level (n + temporaries r.visits) (q :: rs)))

theorem Parameter.inline_code (level n : Nat) : ∀ p : Parameter, (p.code level n).Inline
  | ⟨_, _, none⟩ => .single _
  | ⟨_, _, some value⟩ => (Expr.inline_code level n value).text_cons _

theorem paramsInline_code (level n : Nat) : ∀ params : List Parameter,
    (paramsCode level n params).Inline
  | [] => .nil
  | [p] => Parameter.inline_code level n p
  | p :: q :: ps =>
    (Parameter.inline_code level n p).append
      ((paramsInline_code level (n + temporaries (paramsVisits [p])) (q :: ps)).text_cons _)

end

theorem lines_programCode (n : Nat) (statements : List Statement) :
    (programCode n statements).Lines := by
  induction statements generalizing n with
  | nil => exact .nil
  | cons s ss ih =>
      have first := Statement.lines_code .plain 0 n s
      cases ss with
      | nil => exact first
      | cons t ss =>
          have gap : Lines (if s.isDeclaration then [.text "\n"] else []) := by
            split
            · exact .emptyLine
            · exact .nil
          exact (first.append gap).append (ih _)

/-! ## Options -/

/-- The options decide on layout only. Under two widths a program is refused for the same
reason, or its code has the same lines up to the blanks in front of them. Strict mode puts
its directive in front of the code. -/
theorem generate_options (statements : List Statement) :
    (∀ (width width' : Nat) (strict : Bool),
      (∃ refusal, generate ⟨width, strict⟩ statements = .error refusal ∧
        generate ⟨width', strict⟩ statements = .error refusal) ∨
      ∃ text text', generate ⟨width, strict⟩ statements = .ok text ∧
        generate ⟨width', strict⟩ statements = .ok text' ∧
        List.Forall₂ (fun l l' => withoutMargin l = withoutMargin l')
          (linesOf text.toList) (linesOf text'.toList)) ∧
    ∀ width, generate ⟨width, true⟩ statements =
      (generate ⟨width, false⟩ statements).map ("\"use strict\";\n\n" ++ ·) := by
  unfold generate
  cases refusal? (bodyVisits statements) with
  | some refusal => exact ⟨fun _ _ _ => .inl ⟨refusal, rfl, rfl⟩, fun _ => rfl⟩
  | none =>
      refine ⟨fun width width' strict => .inr ⟨_, _, rfl, rfl, forall₂_linesOf ?_⟩, fun width => ?_⟩
      · have begins : atMargin true (prologue strict).toList = true := by cases strict <;> rfl
        rw [String.toList_append, String.toList_append, unindent_append, unindent_append, begins]
        exact congrArg _ ((lines_programCode 0 statements).text width width')
      · simp [prologue, Except.map]

end TwoScript
