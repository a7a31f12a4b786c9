import TwoScript.Proofs.Code.Rename
import TwoScript.Proofs.Code.Selections
import TwoScript.Proofs.Code.SpellingStatement
import TwoScript.Proofs.Js.Lowering
import TwoScript.Proofs.Number.RoundTrip

/-!
# Temporaries in generated code

Generated code closes every bracket, string and template that it opens, and nothing else. The
functions in it that hold a value in a temporary are those of its selections: each has a
temporary of its own, numbered in the order of the text, and its tests and its error name
that temporary. A piece of code that ends a block begins with its closing brace, so such
pieces are followed by what they do to the braces around them.
-/

namespace TwoScript

open Layout Js

/-! ## Functions for selections -/

/-- What the function for a selection does with its temporary: a test for every arm with a
pattern, and an error unless there is an arm without. -/
def selectionUses (temp : String) (arms : List Arm) : List (Use × String) :=
  List.replicate (arms.countP (·.pattern.isSome)) (.tested, temp)
    ++ if arms.all (·.pattern.isSome) then [(.thrown, temp)] else []

def lowered (n : Nat) (selections : List (List Arm)) : List Lowering :=
  selections.mapIdx fun i arms => ⟨temporary (n + i), selectionUses (temporary (n + i)) arms⟩

@[simp] theorem lowered_nil (n : Nat) : lowered n [] = [] := rfl

theorem lowered_cons (n : Nat) (arms : List Arm) (selections : List (List Arm)) :
    lowered n (arms :: selections) =
      ⟨temporary n, selectionUses (temporary n) arms⟩ :: lowered (n + 1) selections := by
  simp [lowered, List.mapIdx_cons, Nat.add_assoc, Nat.add_comm 1]

theorem lowered_append (n : Nat) (first second : List (List Arm)) :
    lowered n (first ++ second) = lowered n first ++ lowered (n + first.length) second := by
  simp [lowered, List.mapIdx_append, Nat.add_assoc, Nat.add_comm first.length]

/-- Numbers go on behind the selections of the text in front. -/
theorem Js.Tracks.join {a b d cs ds : List Char} {n k : Nat} {first second : List (List Arm)}
    (left : Lowers a b (lowered n first) cs) (length : first.length = k)
    (right : Lowers b d (lowered (n + k) second) ds) :
    Lowers a d (lowered n (first ++ second)) (cs ++ ds) := by
  rw [lowered_append, length]
  exact left.append right

/-! ## Names and literals -/

theorem temporary_temporary (n : Nat) : Temporary (temporary n) := by
  have text : temporary n = String.ofList ("$match_".toList ++ Nat.toDigits 10 n) := by
    rw [String.ofList_append, String.ofList_toList]
    rfl
  rw [text]
  exact temporary_of_isDigit fun c hc => isDigit_of_mem_toDigits hc

namespace Js.Lowers

theorem word {s : String} (h : isWord s = true) : Lowers [] [] [] s.toList :=
  .of_moves (Balanced.of_isPlain fun _ hc => isPlain_of_isWordPart (isWordPart_of_mem h hc))
    (dollar_not_mem_of_isWord h)

theorem bindingName {name : String} (h : isName name = true) :
    Lowers [] [] [] (bindingName name).toList := by
  by_cases reserved : name ∈ reservedWords
  · -- The dollar sign begins a word that is no temporary.
    have apart : ∀ word ∈ reservedWords, '$' :: word.toList ≠ ['$'] ∧
        ¬['$', 'm'] <+: '$' :: word.toList := by decide
    have letters : ∀ c ∈ '$' :: name.toList, continuesWord c = true := by
      intro c hc
      rcases List.mem_cons.mp hc with rfl | part
      · decide
      · simp [continuesWord, isWordPart_of_mem (isWord_of_isName h) part]
    intro close outer word recent bodies found calm _ _
    refine ⟨word ++ '$' :: name.toList, recent, ?_, ?_⟩
    · cases word with
      | nil => exact apart name reserved
      | cons c word => exact calm.append (by simp)
    · have spelled : (TwoScript.bindingName name).toList = '$' :: name.toList := by
        simp [TwoScript.bindingName, reserved]
      rw [spelled, List.map_nil, List.nil_append, Tracker.run_word letters, note_nil,
        List.append_nil]
  · simpa [TwoScript.bindingName, reserved] using word (isWord_of_isName h)

theorem digits {cs : List Char} (h : ∀ c ∈ cs, isDigit c = true) : Lowers [] [] [] cs :=
  .of_moves (Balanced.of_isPlain fun c hc => isPlain_of_isWordPart (isWordPart_of_isDigit (h c hc)))
    fun dollar => absurd (h _ dollar) (by decide)

theorem positional (n places : Nat) : Lowers [] [] [] (positional n places).toList := by
  obtain ⟨whole, fraction, text, _, left, right, _⟩ := positional_digits n places
  have point : Lowers [] [] [] ['.'] := .of_walk (by decide) (by decide)
  rw [text, pointed]
  split
  · exact (digits left).append .nil
  · exact (digits left).append (point.append (digits right))

theorem number (x : Number) : Lowers [] [] [] (x.textWith "Infinity").toList := by
  have minus : Lowers [] [] [] "-".toList := .of_walk (by decide) (by decide)
  have zero : Lowers [] [] [] "0".toList := .of_walk (by decide) (by decide)
  have signed : ∀ (negative : Bool) {s : String}, Lowers [] [] [] s.toList →
      Lowers [] [] [] (if negative then "-" ++ s else s).toList := by
    intro negative s plain
    cases negative with
    | false => exact plain
    | true =>
        rw [if_pos rfl, String.toList_append]
        exact minus.append plain
  cases x with
  | nan => exact .of_walk (by decide) (by decide)
  | infinite negative => exact signed negative (.of_walk (by decide) (by decide))
  | finite negative m e =>
      apply signed negative
      split
      · exact zero
      · exact positional _ _

theorem literal (value : Literal) : Lowers [] [] [] value.code.toList := by
  cases value with
  | number x => exact number x
  | string s =>
      rw [Literal.code, String.toList_ofList]
      exact string s.toList
  | boolean b => cases b <;> exact .of_walk (by decide) (by decide)
  | null => exact .of_walk (by decide) (by decide)

end Js.Lowers

section

variable {width : Nat} {a b : List Char} {ms ns : List Lowering}

/-! ## Lines and blocks -/

theorem Js.Tracks.line {p q : List Char → Prop} {us : List (Use × String)} {content : Layout}
    {level : Nat} (blanks : Tracks p p [] [] [] [] (List.replicate (level * width) ' '))
    (h : Tracks p q a b us ms (content.chars width)) (calm : ∀ w, q w → Calm w) :
    Tracks p Fresh a b us ms ((line level content).chars width) := by
  have newline : Tracks Calm Fresh [] [] [] [] ['\n'] := .stop (by decide) (by decide)
  rw [chars_line]
  exact (blanks.within a).append ((h.imp (fun _ => id) calm).followedBy (newline.within b))

/-- A line, behind which no word is under way. -/
theorem Js.Lowers.freshLine {content : Layout} (level : Nat)
    (h : Lowers a b ms (content.chars width)) :
    Tracks Calm Fresh a b [] ms ((Layout.line level content).chars width) :=
  .line (Lowers.blanks _) h fun _ => id

theorem Js.Lowers.line {content : Layout} {level : Nat} (h : Lowers a b ms (content.chars width)) :
    Lowers a b ms ((Layout.line level content).chars width) :=
  (h.freshLine level).imp (fun _ => id) fun _ => Fresh.calm

theorem Js.Lowers.textLine {text : String} {level : Nat} (h : Lowers a b ms text.toList) :
    Lowers a b ms ((textLine level text).chars width) := by
  apply Js.Lowers.line
  rwa [chars_text, chars_nil, List.append_nil]

theorem Js.Lowers.closingLine (width level : Nat) :
    Lowers ['}'] [] [] ((Layout.textLine level "\x7d").chars width) :=
  .textLine (.of_walk (by decide) (by decide))

/-- A piece between a line that opens a block and one that closes it. -/
theorem Js.Lowers.between {opening closing body : Layout}
    (first : Lowers [] ['}'] ms (opening.chars width))
    (inside : Lowers [] [] ns (body.chars width))
    (last : Lowers ['}'] [] [] (closing.chars width)) :
    Lowers [] [] (ms ++ ns) ((opening ++ body ++ closing).chars width) := by
  rw [chars_append, chars_append]
  exact (first.append (inside.within _)).followedBy last

theorem Js.Lowers.braced {head body : Layout} {level : Nat} (h : Lowers [] [] ms (head.chars width))
    (inside : Lowers [] [] ns (body.chars width)) :
    Lowers [] [] (ms ++ ns)
      ((bracedCode level head body (Layout.textLine level "\x7d")).chars width) := by
  have brace : Lowers [] ['}'] [] " \x7b".toList := .of_walk (by decide) (by decide)
  refine .between (.line ?_) inside (.closingLine width level)
  rw [chars_append, chars_text, chars_nil, List.append_nil]
  exact h.followedBy brace

theorem Js.Lowers.parenthesized {cs : List Char} (h : Lowers [] [] ms cs) :
    Lowers [] [] ms ('(' :: (cs ++ [')'])) := by
  have opening : Lowers [] [')'] [] ['('] := .of_walk (by decide) (by decide)
  have closing : Lowers [')'] [] [] [')'] := .of_walk (by decide) (by decide)
  exact opening.append ((h.within _).followedBy closing)

theorem Js.Lowers.parenthesizedIf {l : Layout} (h : Lowers [] [] ms (l.chars width))
    (wrapped : Bool) : Lowers [] [] ms ((Layout.parenthesized wrapped l).chars width) := by
  cases wrapped with
  | false => exact h
  | true =>
      have around := h.parenthesized
      simpa [Layout.parenthesized] using around

/-! ## Selections -/

inductive TestsLower (width : Nat) : List (Layout × Layout) → List Lowering → Prop
  | nil : TestsLower width [] []
  | cons {pattern body : Layout} {tests : List (Layout × Layout)} {ks ms ns : List Lowering} :
    Lowers [] [] ks (pattern.chars width) → Lowers [] [] ms (body.chars width) →
      TestsLower width tests ns → TestsLower width ((pattern, body) :: tests) (ks ++ ms ++ ns)

/-- The line of a test, whose keyword ends in `if`. -/
theorem Js.Tracks.testLine {p : List Char → Prop} {temp : String} {pattern : Layout} (level : Nat)
    (keyword : String) {lead : List Char} (spelled : keyword.toList = lead ++ "if".toList)
    (named : Temporary temp)
    (blanks : Tracks p p [] [] [] [] (List.replicate (level * width) ' '))
    (first : Tracks p Fresh a [] [] [] lead) (h : Lowers [] [] ms (pattern.chars width)) :
    Tracks p Calm a ['}'] [(.tested, temp)] ms
      ((Layout.line level (.text (keyword ++ " (" ++ temp ++ " === ") :: pattern
        ++ [.text ") \x7b"])).chars width) := by
  have last : Lowers [')'] ['}'] [] ") \x7b".toList := .of_walk (by decide) (by decide)
  have whole := first.append ((Tracks.test named).append ((h.within _).followedBy last))
  have content : Tracks p Calm a ['}'] [(.tested, temp)] ms (Layout.chars width
      (.text (keyword ++ " (" ++ temp ++ " === ") :: pattern ++ [.text ") \x7b"])) := by
    simpa [spelled] using whole
  exact (Tracks.line blanks content fun _ => id).imp (fun _ => id) fun _ => Fresh.calm

/-- The tests behind the first one each close the block in front of them. -/
theorem Choice.tracks_testsCode {temp : String} (level : Nat) (named : Temporary temp)
    {tests : List (Layout × Layout)} (h : TestsLower width tests ms) :
    Tracks Calm Calm ['}'] ['}'] (List.replicate tests.length (.tested, temp)) ms
      ((testsCode level temp "\x7d else if" tests).chars width) := by
  induction h with
  | nil => exact .nil
  | cons pattern body _ ih =>
      have brace : Lowers ['}'] [] [] "\x7d else".toList := .of_walk (by decide) (by decide)
      have blank : Tracks Calm Fresh [] [] [] [] [' '] := .stop (by decide) (by decide)
      have spelled : "\x7d else if".toList = "\x7d else".toList ++ [' '] ++ "if".toList := rfl
      have first := Tracks.testLine level _ spelled named (Lowers.blanks _) (brace.append blank)
        pattern
      rw [testsCode, chars_append, chars_append]
      exact (first.append (body.within _)).append ih

/-- A choice uses the temporary once for every test, and as its last resort does. -/
theorem Choice.tracks_code {temp : String} {c : Choice} {us : List (Use × String)} (level : Nat)
    (named : Temporary temp) (h : TestsLower width c.tests ms)
    (last : Tracks Fresh Calm [] [] us ns (c.otherwise.chars width)) :
    Tracks Fresh Calm [] [] (List.replicate c.tests.length (.tested, temp) ++ us) (ms ++ ns)
      ((c.code level temp).chars width) := by
  obtain ⟨tests, otherwise⟩ := c
  unfold Choice.code
  cases h with
  | nil => exact last
  | cons pattern body tests =>
      have first := Tracks.testLine level "if" (List.nil_append _).symm named
        (Tracks.freshBlanks _) .nil pattern
      have rest := Choice.tracks_testsCode level named tests
      have brace : Lowers ['}'] ['}'] []
          (Layout.chars width [.text "\x7d else \x7b"]) := by
        simpa using (.of_walk (by decide) (by decide) :
          Lowers ['}'] ['}'] [] "\x7d else \x7b".toList)
      have front := ((first.append (body.within _)).append rest).followedBy (brace.freshLine level)
      have whole := (front.append (last.within _)).followedBy (Lowers.closingLine width level)
      rw [List.isEmpty_cons, if_neg (by simp), Choice.testsCode]
      simpa [Layout.textLine, List.replicate_succ] using whole

theorem Js.Lowers.selectionCode {temp : String} {subject : Layout} {choice : Choice} {level : Nat}
    {us : List (Use × String)} (awaits : Bool) (named : Temporary temp)
    (h : Lowers [] [] ms (subject.chars width))
    (chosen : Tracks Fresh Calm [] [] us ns ((choice.code (level + 1) temp).chars width)) :
    Lowers [] [] (⟨temp, us⟩ :: (ms ++ ns))
      ((selectionCode level temp awaits subject choice).chars width) := by
  have opening : Lowers [] [')'] [] (if awaits then "await (async () " else "(() ").toList := by
    cases awaits <;> exact .of_walk (by decide) (by decide)
  have whole := Lowers.function named opening h chosen ((level + 1) * width) (level * width)
  cases awaits <;> simpa [TwoScript.selectionCode, chars_line] using whole

theorem Js.Tracks.noMatchCode {temp : String} (level : Nat) (named : Temporary temp) :
    Tracks Fresh Calm [] [] [(.thrown, temp)] [] ((noMatchCode level temp).chars width) := by
  have content : Tracks Fresh Calm [] [] [(.thrown, temp)] [] (Layout.chars width
      [.text ("throw new Error(\"no match for value: \" + " ++ temp ++ ");")]) := by
    simpa using Tracks.error named
  have line := Tracks.line (Tracks.freshBlanks (level * width)) content fun _ => id
  exact line.imp (fun _ => id) fun _ => Fresh.calm

def selectionBody (level : Nat) (temp : String) (subject : Layout) (choice : Choice) : Layout :=
  .text "\n" :: line (level + 1) (.text ("const " ++ temp ++ " = ") :: subject ++ [.text ";"])
    ++ choice.code (level + 1) temp ++ [.indent level]

theorem chars_selectionCode (level : Nat) (temp : String) (awaits : Bool) (subject : Layout)
    (choice : Choice) :
    (selectionCode level temp awaits subject choice).chars width =
      (if awaits then "await (async () => " else "(() => ").toList ++
        ('{' :: ((selectionBody level temp subject choice).chars width ++ ['}']))
        ++ ")()".toList := by
  cases awaits <;> simp [selectionCode, selectionBody]

theorem Js.Balanced.selectionBody {temp : String} {subject : Layout} {choice : Choice}
    (level : Nat) (named : Temporary temp) (h : Js.Balanced (subject.chars width))
    (chosen : Js.Balanced ((choice.code (level + 1) temp).chars width)) :
    Js.Balanced ((selectionBody level temp subject choice).chars width) := by
  have word : Js.Balanced "\n".toList := .of_walk (by decide)
  have keyword : Js.Balanced "const ".toList := .of_walk (by decide)
  have name : Js.Balanced temp.toList :=
    .of_isPlain fun c hc => isPlain_of_continuesWord (named.2 c hc)
  have equal : Js.Balanced " = ".toList := .of_walk (by decide)
  have last : Js.Balanced ";\n".toList := .of_walk (by decide)
  have blanks : ∀ k, Js.Balanced (List.replicate k ' ') := fun k => (Lowers.blanks k).moves Calm.nil
  have whole := word.append ((blanks ((level + 1) * width)).append (keyword.append (name.append
    (equal.append (h.append (last.append (chosen.append (blanks (level * width)))))))))
  simpa [TwoScript.selectionBody, chars_line] using whole

/-! ## Statements -/

theorem Js.Lowers.declaration {name : String} (constant : Bool) (named : isName name = true) :
    Lowers [] [] []
      ((if constant then "const " else "let ") ++ TwoScript.bindingName name).toList := by
  have word : Lowers [] [] [] (if constant then "const " else "let ").toList := by
    cases constant <;> exact .of_walk (by decide) (by decide)
  rw [String.toList_append]
  exact word.append (Lowers.bindingName named)

theorem Js.Lowers.declaredLine {name : String} (level : Nat) (constant : Bool)
    (named : isName name = true) :
    Lowers [] [] [] ((Layout.textLine level ((if constant then "const " else "let ")
      ++ TwoScript.bindingName name ++ ";")).chars width) := by
  have last : Lowers [] [] [] ";".toList := .of_walk (by decide) (by decide)
  apply Js.Lowers.textLine
  rw [String.toList_append]
  exact (Lowers.declaration constant named).append last

/-- A clause of an attempt: its first line closes the block in front of it. -/
theorem Js.Lowers.clauseCode {first : String} {body : Layout} {level : Nat}
    (head : Lowers ['}'] ['}'] [] first.toList) (inside : Lowers [] [] ms (body.chars width)) :
    Lowers ['}'] ['}'] ms ((Layout.textLine level first ++ body).chars width) := by
  rw [chars_append]
  exact (Js.Lowers.textLine head).append (inside.within _)

theorem Js.Lowers.catchHead {name : String} (named : isName name = true) :
    Lowers ['}'] ['}'] []
      ("\x7d catch (" ++ TwoScript.bindingName name ++ ") \x7b").toList := by
  have first : Lowers ['}'] [')'] [] "\x7d catch (".toList := .of_walk (by decide) (by decide)
  have last : Lowers [')'] ['}'] [] ") \x7b".toList := .of_walk (by decide) (by decide)
  rw [String.toList_append, String.toList_append]
  exact (first.append ((Lowers.bindingName named).within _)).append last

/-- A head that opens the block of a conditional, behind nothing or behind the brace that
closes the one before. -/
theorem Js.Lowers.conditionHead {head : String} {condition : Layout} (level : Nat)
    (first : Lowers a [')'] [] head.toList) (h : Lowers [] [] ms (condition.chars width)) :
    Lowers a ['}'] ms (Layout.chars width
      (.indent level :: .text head :: condition ++ [.text ") \x7b\n"])) := by
  have last : Lowers [')'] ['}'] [] ") \x7b\n".toList := .of_walk (by decide) (by decide)
  have whole := ((Lowers.blanks (level * width)).within a).append
    (first.append ((h.within _).followedBy last))
  simpa using whole

theorem Js.Lowers.signature {name : String} {params : Layout} (async : Bool)
    (named : Lowers [] [] [] name.toList) (h : Lowers [] [] ms (params.chars width)) :
    Lowers [] [] ms ((signatureCode async name params).chars width) := by
  have word : Lowers [] [] [] (if async then "async " else "").toList := by
    cases async <;> exact .of_walk (by decide) (by decide)
  have whole := word.append (named.append h.parenthesized)
  simpa [signatureCode] using whole

theorem Js.Lowers.terminated {l : Layout} (level : Nat) (first : String)
    (word : Lowers [] [] [] first.toList) (h : Lowers [] [] ms (l.chars width)) :
    Lowers [] [] ms ((Layout.line level (.text first :: l ++ [.text ";"])).chars width) := by
  have last : Lowers [] [] [] ";".toList := .of_walk (by decide) (by decide)
  apply Js.Lowers.line
  have whole := word.append (h.followedBy last)
  simpa using whole

theorem Js.Lowers.unaryCode {op : UnaryOp} {l : Layout} (h : Lowers [] [] ms (l.chars width)) :
    Lowers [] [] ms ((unaryCode op l).chars width) := by
  have symbol : Lowers [] [] [] op.symbol.toList := by
    cases op <;> exact .of_walk (by decide) (by decide)
  have minus : Lowers [] [] [] "- ".toList := .of_walk (by decide) (by decide)
  unfold TwoScript.unaryCode
  split
  · rw [chars_text]
    exact minus.append h
  · rw [chars_text]
    exact symbol.append h

/-! ## Trees -/

theorem Js.Lowers.pattern {e : Expr} (level n : Nat) (h : e.IsPattern) :
    Lowers [] [] (lowered n e.selections) ((e.code level n).chars width) := by
  cases e with
  | literal _ value => simpa [Expr.code, Expr.selections, lowered] using Lowers.literal value
  | _ => exact h.elim

theorem length_testsOf (level n : Nat) (arms : List Arm) :
    (testsOf level n arms).length = arms.countP (·.pattern.isSome) := by
  induction arms generalizing n with
  | nil => rfl
  | cons arm arms ih =>
      obtain ⟨_ | pattern, body⟩ := arm
      · rw [testsOf, ih, List.countP_cons_of_neg (by simp)]
      · rw [testsOf, List.length_cons, ih, List.countP_cons_of_pos rfl]

mutual

theorem Expr.lowers_code (level n : Nat) : ∀ e : Expr, e.Every grammatical →
    Lowers [] [] (lowered n e.selections) ((e.code level n).chars width)
  | .literal _ value, _ => by
    simpa [Expr.code, Expr.selections] using Lowers.literal value
  | .ident _ name, h => by
    simpa [Expr.code, Expr.selections] using Lowers.bindingName h.2
  | .assign _ op target value, h => by
    have between : Lowers [] [] [] (" " ++ op.symbol ++ " ").toList := by
      cases op <;> exact .of_walk (by decide) (by decide)
    have left := Expr.lowers_code level n target h.2.1
    have right := Expr.lowers_code level (n + temporaries target.visits) value h.2.2
    rw [Expr.code, chars_append, chars_text]
    exact left.join target.length_selections (between.append right)
  | .binary _ op left right, h => by
    have between : Lowers [] [] [] (" " ++ op.symbol ++ " ").toList := by
      cases op <;> exact .of_walk (by decide) (by decide)
    have first := Expr.lowers_code level n left h.2.1
    have second := Expr.lowers_code level (n + temporaries left.visits) right h.2.2
    rw [Expr.code, chars_append, chars_text]
    exact (first.parenthesizedIf _).join left.length_selections
      (between.append (second.parenthesizedIf _))
  | .unary _ op operand, h =>
    .unaryCode ((Expr.lowers_code level n operand h.2).parenthesizedIf _)
  | .group _ inner, h => (Expr.lowers_code level n inner h.2).parenthesizedIf true
  | .call _ callee args, h => by
    have first := Expr.lowers_code level n callee h.2.1
    have second := argsLower_code level (n + temporaries callee.visits) args h.2.2
    have whole := (first.parenthesizedIf callee.isAwaitedSelection).join callee.length_selections
      second.parenthesized
    simpa [Expr.code, Expr.selections] using whole
  | .member _ object property, h => by
    have first := Expr.lowers_code level n object h.2
    have dot : Lowers [] [] [] ".".toList := .of_walk (by decide) (by decide)
    have whole := (first.parenthesizedIf (object.isAwaitedSelection || object.isNumber)).followedBy
      (dot.append (Lowers.word h.1.2))
    simpa [Expr.code, Expr.selections] using whole
  | .await _ operand, h => by
    have inner := Expr.lowers_code level n operand h.2
    have word : Lowers [] [] [] "await ".toList := .of_walk (by decide) (by decide)
    rw [Expr.code, chars_text]
    exact word.append (inner.parenthesizedIf _)
  | .select _ subject arms, h => by
    have named := temporary_temporary n
    have inner := Expr.lowers_code level (n + 1) subject h.2.1
    have tests := testsLower_code (level + 1) (n + 1 + temporaries subject.visits) arms h.2.2
    have last := otherwiseTracks_code
      (if (testsOf (level + 1) (n + 1 + temporaries subject.visits) arms).isEmpty then level + 1
        else level + 2) n
      (n + 1 + temporaries subject.visits + temporaries (valueArmsVisits arms)) arms h.2.2
    rw [Expr.selections, List.cons_append, List.cons_append, List.append_assoc, lowered_cons,
      lowered_append, lowered_append, subject.length_selections, length_valueArmsSelections,
      selectionUses, ← length_testsOf (level + 1) (n + 1 + temporaries subject.visits)]
    have chosen := Choice.tracks_code (c := ⟨_, _⟩) (level + 1) named tests last
    exact Lowers.selectionCode _ named inner chosen
  | .template _ parts, h => by
    simpa [Expr.code, Expr.selections] using (partsLower_code level n parts h.2 h.1.2).quoted

theorem argsLower_code (level n : Nat) : ∀ args : List Expr, argsEvery grammatical args →
    Lowers [] [] (lowered n (argsSelections args)) ((argsCode level n args).chars width)
  | [], _ => .nil
  | [e], h => by
    simpa [argsCode, argsSelections] using Expr.lowers_code level n e h.1
  | e :: f :: es, h => by
    have comma : Lowers [] [] [] ", ".toList := .of_walk (by decide) (by decide)
    have first := Expr.lowers_code level n e h.1
    have rest := argsLower_code level (n + temporaries e.visits) (f :: es) h.2
    rw [argsCode, chars_append, chars_text]
    exact first.join e.length_selections (comma.append rest)

theorem testsLower_code (level n : Nat) : ∀ arms : List Arm, armsEvery grammatical arms →
    TestsLower width (testsOf level n arms) (lowered n (valueArmsSelections arms))
  | [], _ => .nil
  | ⟨none, _⟩ :: arms, h => testsLower_code level n arms h.2
  | ⟨some pattern, body⟩ :: arms, h => by
    have inner := Statement.lowers_code .arm (level + 1) (n + temporaries pattern.visits) body h.2.1
    have rest := testsLower_code level (n + temporaries pattern.visits + temporaries body.visits)
      arms h.2.2
    rw [testsOf, valueArmsSelections, lowered_append, lowered_append, List.length_append,
      pattern.length_selections, body.length_selections, ← Nat.add_assoc]
    exact .cons (Lowers.pattern level n h.1) inner rest

theorem otherwiseTracks_code (level m n : Nat) : ∀ arms : List Arm, armsEvery grammatical arms →
    Tracks Fresh Calm [] []
      (if arms.all (·.pattern.isSome) then [(.thrown, temporary m)] else [])
      (lowered n (defaultArmSelections arms)) ((otherwiseOf level (temporary m) n arms).chars width)
  | [], _ => .noMatchCode level (temporary_temporary m)
  | ⟨none, body⟩ :: _, h => by
    have inner := Statement.lowers_code .arm level n body h.1
    exact inner.imp (fun _ => Fresh.calm) fun _ => id
  | ⟨some _, _⟩ :: arms, h => otherwiseTracks_code level m n arms h.2.2

theorem partsLower_code (level n : Nat) : ∀ parts : List Part, partsEvery grammatical parts →
    Part.Apart parts → LowersInTemplate (Part.beginsWithText parts)
      (lowered n (partsSelections parts)) ((partsCode level n parts).chars width)
  | [], _, _ => .nil
  | .text s :: parts, h, apart => by
    have rest := partsLower_code level n parts h apart.2.2
    rw [apart.2.1] at rest
    simpa [partsCode, partsSelections, Part.beginsWithText] using
      LowersInTemplate.text s.toList rest
  | .expr e :: parts, h, apart => by
    have rest := partsLower_code level (n + temporaries e.visits) parts h.2 apart
    have inner := Expr.lowers_code level n e h.1
    rw [partsSelections, lowered_append, e.length_selections]
    simpa [partsCode] using LowersInTemplate.interpolation inner rest

theorem Statement.lowers_code (role : Role) (level n : Nat) : ∀ s : Statement,
    s.Every grammatical → Lowers [] [] (lowered n s.selections) ((s.code role level n).chars width)
  | .function _ routine, h => Routine.lowers_code level n true routine h.1 h.2
  | .classDecl _ name methods, h => by
    have word : Lowers [] [] [] "class ".toList := .of_walk (by decide) (by decide)
    have head : Lowers [] [] [] (Layout.chars width [.text ("class " ++ bindingName name)]) := by
      rw [chars_text, chars_nil, List.append_nil, String.toList_append]
      exact word.append (Lowers.bindingName h.1.1)
    exact .braced head (methodsLower_code (level + 1) n methods h.1.2 h.2)
  | .declare _ constant name _ none, h => .declaredLine level constant h.1
  | .declare _ constant name _ (some initial), h => by
    have equal : Lowers [] [] [] " = ".toList := .of_walk (by decide) (by decide)
    refine .terminated level _ ?_ (Expr.lowers_code level n initial h.2)
    rw [String.toList_append]
    exact (Lowers.declaration constant h.1.1).append equal
  | .conditional _ condition body none, h => by
    have keyword : Lowers [] [')'] [] "if (".toList := .of_walk (by decide) (by decide)
    have head := keyword.conditionHead level (Expr.lowers_code level n condition h.2.1)
    have inner := bodyLower_code (level + 1) (n + temporaries condition.visits) body h.2.2
    have whole := (head.join condition.length_selections (inner.within _)).followedBy
      (Lowers.closingLine width level)
    simpa [Statement.code, Statement.selections, elseCode] using whole
  | .conditional _ condition body (some otherwise), h => by
    have keyword : Lowers [] [')'] [] "if (".toList := .of_walk (by decide) (by decide)
    have head := keyword.conditionHead level (Expr.lowers_code level n condition h.2.1)
    have inner := bodyLower_code (level + 1) (n + temporaries condition.visits) body h.2.2.1
    have rest := elseLower_code level
      (n + temporaries condition.visits + temporaries (bodyVisits body)) otherwise
      (h.1 otherwise rfl) h.2.2.2
    have whole := head.join condition.length_selections
      ((inner.within _).join (length_bodySelections body) rest)
    simpa [Statement.code, Statement.selections] using whole
  | .attempt _ body handler cleanup, h => by
    have opening : Lowers [] ['}'] [] ((textLine level "try \x7b").chars width) :=
      .textLine (.of_walk (by decide) (by decide))
    have inner := bodyLower_code (level + 1) n body h.2.1
    have caught := handlerLower_code level (n + temporaries (bodyVisits body)) handler h.1.2 h.2.2.1
    have cleaned := cleanupLower_code level (n + temporaries (bodyVisits body)
      + temporaries (handlerVisits handler)) cleanup h.2.2.2
    have whole := opening.append (((inner.within _).join (length_bodySelections body)
      (caught.join (length_handlerSelections handler) cleaned)).followedBy
        (Lowers.closingLine width level))
    simpa [Statement.code, Statement.selections] using whole
  | .returning _ none, _ => .textLine (.of_walk (by decide) (by decide))
  | .returning _ (some value), h =>
    .terminated level _ (.of_walk (by decide) (by decide)) (Expr.lowers_code level n value h.2)
  | .block _ body, h => by
    cases role with
    | plain =>
        exact .between (.textLine (.of_walk (by decide) (by decide)))
          (bodyLower_code (level + 1) n body h.2) (.closingLine width level)
    | arm => exact bodyLower_code level n body h.2
  | .expression _ value, h => by
    have inner := Expr.lowers_code level n value h.2
    cases role with
    | plain =>
        have whole := Lowers.terminated level "" .nil inner
        simpa [Statement.code, Statement.selections, line] using whole
    | arm => exact .terminated level _ (.of_walk (by decide) (by decide)) inner
  | .failed _, _ => .nil

theorem bodyLower_code (level n : Nat) : ∀ body : List Statement, bodyEvery grammatical body →
    Lowers [] [] (lowered n (bodySelections body)) ((bodyCode level n body).chars width)
  | [], _ => .nil
  | s :: ss, h => by
    have first := Statement.lowers_code .plain level n s h.1
    have rest := bodyLower_code level (n + temporaries s.visits) ss h.2
    rw [bodyCode, chars_append]
    exact first.join s.length_selections rest

theorem elseLower_code (level n : Nat) : ∀ s : Statement,
    s.isConditional = true ∨ s.isBlock = true → s.Every grammatical →
    Lowers ['}'] [] (lowered n s.selections) ((elseCode level n (some s)).chars width)
  | .conditional _ condition body none, _, h => by
    have keyword : Lowers ['}'] [')'] [] "\x7d else if (".toList :=
      .of_walk (by decide) (by decide)
    have head := keyword.conditionHead level (Expr.lowers_code level n condition h.2.1)
    have inner := bodyLower_code (level + 1) (n + temporaries condition.visits) body h.2.2
    have whole := (head.join condition.length_selections (inner.within _)).followedBy
      (Lowers.closingLine width level)
    simpa [elseCode, Statement.selections] using whole
  | .conditional _ condition body (some otherwise), _, h => by
    have keyword : Lowers ['}'] [')'] [] "\x7d else if (".toList :=
      .of_walk (by decide) (by decide)
    have head := keyword.conditionHead level (Expr.lowers_code level n condition h.2.1)
    have inner := bodyLower_code (level + 1) (n + temporaries condition.visits) body h.2.2.1
    have rest := elseLower_code level
      (n + temporaries condition.visits + temporaries (bodyVisits body)) otherwise
      (h.1 otherwise rfl) h.2.2.2
    have whole := head.join condition.length_selections
      ((inner.within _).join (length_bodySelections body) rest)
    simpa [elseCode, Statement.selections] using whole
  | .block _ body, _, h => by
    have head : Lowers ['}'] ['}'] [] ((textLine level "\x7d else \x7b").chars width) :=
      .textLine (.of_walk (by decide) (by decide))
    have inner := bodyLower_code (level + 1) n body h.2
    rw [elseCode, chars_append, chars_append]
    exact (head.append (inner.within _)).followedBy (Lowers.closingLine width level)
  | .function _ _, other, _ | .classDecl _ _ _, other, _ | .declare _ _ _ _ _, other, _
  | .attempt _ _ _ _, other, _ | .returning _ _, other, _ | .expression _ _, other, _
  | .failed _, other, _ => by
    simp [Statement.isConditional, Statement.isBlock] at other

theorem handlerLower_code (level n : Nat) : ∀ handler : Option Handler,
    (∀ h, handler = some h → ∀ name, h.binding = some name → isName name = true) →
    handlerEvery grammatical handler →
    Lowers ['}'] ['}'] (lowered n (handlerSelections handler))
      ((handlerCode level n handler).chars width)
  | none, _, _ => .nil
  | some ⟨none, body⟩, _, h =>
    .clauseCode (.of_walk (by decide) (by decide)) (bodyLower_code (level + 1) n body h)
  | some ⟨some name, body⟩, named, h =>
    .clauseCode (.catchHead (named _ rfl name rfl)) (bodyLower_code (level + 1) n body h)

theorem cleanupLower_code (level n : Nat) : ∀ cleanup : Option (List Statement),
    cleanupEvery grammatical cleanup →
    Lowers ['}'] ['}'] (lowered n (cleanupSelections cleanup))
      ((cleanupCode level n cleanup).chars width)
  | none, _ => .nil
  | some body, h =>
    .clauseCode (.of_walk (by decide) (by decide)) (bodyLower_code (level + 1) n body h)

theorem Routine.lowers_code (level n : Nat) (keyword : Bool) : ∀ r : Routine, r.Formed →
    r.Every grammatical →
    Lowers [] [] (lowered n r.selections) ((r.code level n keyword).chars width)
  | ⟨name, params, _, body, async⟩, formed, h => by
    have word : Lowers [] [] [] "function ".toList := .of_walk (by decide) (by decide)
    have named :
        Lowers [] [] [] (if keyword then "function " ++ bindingName name else name).toList := by
      cases keyword with
      | false => exact .word (isWord_of_isName formed.1)
      | true =>
          rw [if_pos rfl, String.toList_append]
          exact word.append (Lowers.bindingName formed.1)
    have head := Lowers.signature async named (paramsLower_code level n params formed.2 h.1)
    have inner := bodyLower_code (level + 1) (n + temporaries (paramsVisits params)) body h.2
    rw [Routine.selections, lowered_append, length_paramsSelections]
    exact .braced head inner

theorem methodsLower_code (level n : Nat) : ∀ methods : List Routine,
    (∀ m ∈ methods, m.Formed) → routinesEvery grammatical methods →
    Lowers [] [] (lowered n (routinesSelections methods))
      ((methodsCode level n methods).chars width)
  | [], _, _ => .nil
  | [r], formed, h => by
    simpa [methodsCode, routinesSelections] using
      Routine.lowers_code level n false r (formed r List.mem_cons_self) h.1
  | r :: q :: rs, formed, h => by
    have newline : Lowers [] [] [] "\n".toList := .of_walk (by decide) (by decide)
    have first := Routine.lowers_code level n false r (formed r List.mem_cons_self) h.1
    have rest := methodsLower_code level (n + temporaries r.visits) (q :: rs)
      (fun m hm => formed m (List.mem_cons_of_mem _ hm)) h.2
    rw [methodsCode, chars_append, chars_text]
    exact first.join r.length_selections (newline.append rest)

theorem Parameter.lowers_code (level n : Nat) : ∀ p : Parameter, p.Formed →
    paramsEvery grammatical [p] →
    Lowers [] [] (lowered n (paramsSelections [p])) ((p.code level n).chars width)
  | ⟨name, _, none⟩, formed, _ => by
    simpa [Parameter.code, paramsSelections] using Lowers.bindingName formed.1
  | ⟨name, _, some value⟩, formed, h => by
    have equal : Lowers [] [] [] " = ".toList := .of_walk (by decide) (by decide)
    have whole := (Lowers.bindingName formed.1).append
      (equal.append (Expr.lowers_code level n value h.1))
    simpa [Parameter.code, paramsSelections] using whole

theorem paramsLower_code (level n : Nat) : ∀ params : List Parameter,
    (∀ p ∈ params, p.Formed) → paramsEvery grammatical params →
    Lowers [] [] (lowered n (paramsSelections params)) ((paramsCode level n params).chars width)
  | [], _, _ => .nil
  | [p], formed, h => Parameter.lowers_code level n p (formed p List.mem_cons_self) h
  | p :: q :: ps, formed, h => by
    have comma : Lowers [] [] [] ", ".toList := .of_walk (by decide) (by decide)
    obtain ⟨single, others⟩ := paramsEvery_cons.mp h
    have first := Parameter.lowers_code level n p (formed p List.mem_cons_self) single
    have rest := paramsLower_code level (n + temporaries (paramsVisits [p])) (q :: ps)
      (fun r hr => formed r (List.mem_cons_of_mem _ hr)) others
    have split : paramsSelections (p :: q :: ps) =
        paramsSelections [p] ++ paramsSelections (q :: ps) := by
      obtain ⟨_, _, _ | _⟩ := p <;> simp [paramsSelections]
    rw [paramsCode, chars_append, chars_text, split]
    exact first.join (length_paramsSelections [p]) (comma.append rest)

end

end

end TwoScript
