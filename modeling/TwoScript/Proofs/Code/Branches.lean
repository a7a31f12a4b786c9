import TwoScript.Code.Emit

/-!
# Branches of a selection

The function of a selection holds its subject in a temporary and goes on with one chain of
tests. Such a chain is read here as JavaScript reads it, apart from the way it is written:
a test is made only when all tests before it have failed, and the branch of the first one
that holds is entered. Which arm that is depends on the arms alone.
-/

namespace TwoScript

open Layout

namespace Js

/-- An if statement with its alternatives, down to the statements of the last of them. -/
inductive Chain where
  | last (body : String)
  | test (condition body : String) (rest : Chain)
deriving DecidableEq, Repr

namespace Chain

/-- The text of a chain behind another branch, from the brace that closes that branch on. -/
def elseText (margin : String) : Chain → String
  | last body => margin ++ "\x7d else \x7b\n" ++ body ++ margin ++ "\x7d\n"
  | test condition body rest =>
    margin ++ "\x7d else if (" ++ condition ++ ") \x7b\n" ++ body ++ rest.elseText margin

def text (margin : String) : Chain → String
  | last body => body
  | test condition body rest =>
    margin ++ "if (" ++ condition ++ ") \x7b\n" ++ body ++ rest.elseText margin

def conditions : Chain → List String
  | last _ => []
  | test condition _ rest => condition :: rest.conditions

/-- The branches, the last resort behind all others. -/
def bodies : Chain → List String
  | last body => [body]
  | test _ body rest => body :: rest.bodies

/-- Control enters branch `k` of a chain when `holds i` is the outcome of test `i`. -/
inductive Enters : Chain → (Nat → Bool) → Nat → Prop
  | last {body : String} {holds : Nat → Bool} : Enters (last body) holds 0
  | here {condition body : String} {rest : Chain} {holds : Nat → Bool} (yes : holds 0 = true) :
    Enters (test condition body rest) holds 0
  | later {condition body : String} {rest : Chain} {holds : Nat → Bool} {k : Nat}
    (no : holds 0 = false) (entered : Enters rest (fun i => holds (i + 1)) k) :
    Enters (test condition body rest) holds (k + 1)

/-- The number of the branch of the first test that holds, or of the last resort behind
`count` tests. -/
def branch (holds : Nat → Bool) : Nat → Nat
  | 0 => 0
  | count + 1 => if holds 0 then 0 else branch (fun i => holds (i + 1)) count + 1

/-- Control enters one branch and no other. -/
theorem enters_iff (chain : Chain) (holds : Nat → Bool) (k : Nat) :
    chain.Enters holds k ↔ k = branch holds chain.conditions.length := by
  induction chain generalizing holds k with
  | last body =>
      constructor
      · intro entered
        cases entered
        rfl
      · intro first
        rw [first]
        exact .last
  | test condition body rest ih =>
      rw [conditions, List.length_cons, branch]
      by_cases yes : holds 0 = true
      · rw [if_pos yes]
        constructor
        · intro entered
          cases entered with
          | here _ => rfl
          | later no _ => simp [yes] at no
        · intro first
          rw [first]
          exact .here yes
      · rw [if_neg yes]
        constructor
        · intro entered
          cases entered with
          | here yes' => exact absurd yes' yes
          | later _ entered => rw [(ih _ _).mp entered]
        · intro next
          rw [next]
          exact .later (by simpa using yes) ((ih _ _).mpr rfl)

def ofTests (otherwise : String) : List (String × String) → Chain
  | [] => last otherwise
  | (condition, body) :: tests => test condition body (ofTests otherwise tests)

theorem conditions_ofTests (otherwise : String) (tests : List (String × String)) :
    (ofTests otherwise tests).conditions = tests.map Prod.fst := by
  induction tests with
  | nil => rfl
  | cons t tests ih => rw [ofTests, conditions, ih, List.map_cons]

theorem bodies_ofTests (otherwise : String) (tests : List (String × String)) :
    (ofTests otherwise tests).bodies = tests.map Prod.snd ++ [otherwise] := by
  induction tests with
  | nil => rfl
  | cons t tests ih => rw [ofTests, bodies, ih, List.map_cons, List.cons_append]

end Chain

end Js

/-! ## The chain of a choice -/

def margin (width level : Nat) : String :=
  String.ofList (List.replicate (level * width) ' ')

theorem render_line (width level : Nat) (content : Layout) :
    (line level content).render width = margin width level ++ content.render width ++ "\n" := by
  simp [line, Piece.render, margin, String.append_assoc]

theorem render_textLine (width level : Nat) (text : String) :
    (textLine level text).render width = margin width level ++ text ++ "\n" := by
  simp [textLine, render_line, Piece.render]

namespace Choice

def condition (temp pattern : String) : String :=
  temp ++ " === " ++ pattern

def testTexts (width : Nat) (temp : String) (tests : List (Layout × Layout)) :
    List (String × String) :=
  tests.map fun t => (condition temp (t.1.render width), t.2.render width)

theorem render_tests (width level : Nat) (temp : String) (otherwise : Layout)
    (tests : List (Layout × Layout)) :
    (testsCode level temp "\x7d else if" tests ++ textLine level "\x7d else \x7b" ++ otherwise
        ++ textLine level "\x7d").render width =
      (Js.Chain.ofTests (otherwise.render width) (testTexts width temp tests)).elseText
        (margin width level) := by
  induction tests with
  | nil => simp [testsCode, render_textLine, testTexts, Js.Chain.ofTests, Js.Chain.elseText,
      String.append_assoc]
  | cons t tests ih =>
      have rest := ih
      simp only [render_append] at rest
      simp only [testsCode, testTexts, List.map_cons, Js.Chain.ofTests, Js.Chain.elseText,
        render_append, render_line, render_cons]
      rw [show tests.map _ = testTexts width temp tests from rfl, ← rest]
      simp [condition, Piece.render, String.append_assoc]

/-- A choice is written as a chain. -/
theorem render_code (width level : Nat) (temp : String) (c : Choice) :
    (c.code level temp).render width =
      (Js.Chain.ofTests (c.otherwise.render width) (testTexts width temp c.tests)).text
        (margin width level) := by
  obtain ⟨tests, otherwise⟩ := c
  cases tests with
  | nil => rfl
  | cons t tests =>
      have rest := render_tests width level temp otherwise tests
      simp only [render_append] at rest
      simp only [code, List.isEmpty_cons, Bool.false_eq_true, if_false, testsCode, testTexts,
        List.map_cons, Js.Chain.ofTests, Js.Chain.text, render_append, render_line, render_cons]
      rw [show tests.map _ = testTexts width temp tests from rfl, ← rest]
      simp [condition, Piece.render, String.append_assoc]

end Choice

/-! ## The arm that is taken -/

/-- An arm with a pattern, and the number of the first temporary that is free for it. -/
structure ValueArm where
  number : Nat
  pattern : Expr
  body : Statement

def valueArms (n : Nat) : List Arm → List ValueArm
  | [] => []
  | ⟨none, _⟩ :: arms => valueArms n arms
  | ⟨some pattern, body⟩ :: arms =>
    ⟨n, pattern, body⟩
      :: valueArms (n + temporaries pattern.visits + temporaries body.visits) arms

def takenArm? (holds : Nat → Bool) (values : List ValueArm) : Option ValueArm :=
  (values.zipIdx.find? fun a => holds a.2).map Prod.fst

def defaultBody? (arms : List Arm) : Option Statement :=
  (arms.find? fun a => a.pattern.isNone).map Arm.body

/-- The text of an arm: an expression is returned, the statements of a block stand one
behind the other. -/
def armText (width level n : Nat) : Statement → String
  | .expression _ value =>
    margin width level ++ "return " ++ (value.code level n).render width ++ ";\n"
  | .block _ statements => (bodyCode level n statements).render width
  | body => (body.code .plain level n).render width

theorem takenArm?_cons (holds : Nat → Bool) (a : ValueArm) (values : List ValueArm) :
    takenArm? holds (a :: values) =
      if holds 0 then some a else takenArm? (fun i => holds (i + 1)) values := by
  rw [takenArm?, List.zipIdx_cons, List.find?_cons]
  by_cases yes : holds 0 = true
  · simp [yes]
  · simp [yes, takenArm?, List.zipIdx_succ, List.find?_map, Function.comp_def]

/-- The branch that is entered is that of the arm that is taken. -/
theorem getElem?_branch (holds : Nat → Bool) (text : ValueArm → String) (otherwise : String)
    (values : List ValueArm) :
    (values.map text ++ [otherwise])[Js.Chain.branch holds values.length]? =
      some (((takenArm? holds values).map text).getD otherwise) := by
  induction values generalizing holds with
  | nil => rfl
  | cons a values ih =>
      rw [List.length_cons, Js.Chain.branch, takenArm?_cons]
      by_cases yes : holds 0 = true
      · simp [yes]
      · rw [if_neg yes, if_neg yes, List.map_cons, List.cons_append, List.getElem?_cons_succ]
        exact ih _

theorem valueArms_eq (n : Nat) (arms : List Arm) :
    (valueArms n arms).map (fun a => (⟨some a.pattern, a.body⟩ : Arm)) =
      arms.filter fun a => a.pattern.isSome := by
  fun_induction valueArms n arms with
  | case1 => rfl
  | case2 n body arms ih => simpa using ih
  | case3 n pattern body arms ih => simpa using ih

theorem render_arm (width level n : Nat) (body : Statement) :
    (body.code .arm level n).render width = armText width level n body := by
  cases body with
  | expression s value =>
      simp [Statement.code, armText, render_line, Piece.render, String.append_assoc]
  | block s statements => rw [Statement.code, armText]
  | declare s constant name type initial => cases initial <;> rfl
  | returning s value => cases value <;> rfl
  | _ => rfl

def otherwiseText (width level n : Nat) (temp : String) : Option Statement → String
  | some body => armText width level n body
  | none =>
    margin width level ++ "throw new Error(\"no match for value: \" + " ++ temp ++ ");\n"

theorem testTexts_testsOf (width level n : Nat) (temp : String) (arms : List Arm) :
    Choice.testTexts width temp (testsOf level n arms) =
      (valueArms n arms).map fun a =>
        (Choice.condition temp ((a.pattern.code level a.number).render width),
          armText width (level + 1) (a.number + temporaries a.pattern.visits) a.body) := by
  fun_induction valueArms n arms with
  | case1 => rfl
  | case2 n body arms ih => simpa only [testsOf] using ih
  | case3 n pattern body arms ih =>
      rw [List.map_cons, ← ih, testsOf, Choice.testTexts, List.map_cons, render_arm]
      rfl

theorem render_otherwiseOf (width level n : Nat) (temp : String) (arms : List Arm) :
    (otherwiseOf level temp n arms).render width =
      otherwiseText width level n temp (defaultBody? arms) := by
  induction arms with
  | nil => simp [otherwiseOf, noMatchCode, render_textLine, otherwiseText, defaultBody?,
      String.append_assoc]
  | cons arm arms ih =>
      obtain ⟨pattern, body⟩ := arm
      cases pattern with
      | none => exact render_arm width level n body
      | some pattern => simpa [otherwiseOf, defaultBody?] using ih

theorem isEmpty_testsOf (level n : Nat) (arms : List Arm) :
    (testsOf level n arms).isEmpty = (valueArms n arms).isEmpty := by
  fun_induction valueArms n arms with
  | case1 => rfl
  | case2 n body arms ih => simpa only [testsOf] using ih
  | case3 n pattern body arms ih => rfl

/-- The chain of a selection whose temporary has number `n`, with the temporaries of its arms
from `free` on. -/
def selectionChain (width level n free : Nat) (arms : List Arm) : Js.Chain :=
  let values := valueArms free arms
  .ofTests
    (otherwiseText width (if values.isEmpty then level else level + 1)
      (free + temporaries (valueArmsVisits arms)) (temporary n) (defaultBody? arms))
    (values.map fun a =>
      (Choice.condition (temporary n) ((a.pattern.code level a.number).render width),
        armText width (level + 1) (a.number + temporaries a.pattern.visits) a.body))

theorem render_selection (width level n : Nat) (s : Span) (subject : Expr) (arms : List Arm) :
    ((Expr.select s subject arms).code level n).render width =
      (if subject.awaits || armsAwait arms then "await (async () => \x7b\n" else "(() => \x7b\n")
        ++ margin width (level + 1) ++ "const " ++ temporary n ++ " = "
        ++ (subject.code level (n + 1)).render width ++ ";\n"
        ++ (selectionChain width (level + 1) n (n + 1 + temporaries subject.visits) arms).text
          (margin width (level + 1))
        ++ margin width level ++ "\x7d)()" := by
  rw [Expr.code, selectionCode, isEmpty_testsOf, render_append, render_append, render_cons,
    render_line, Choice.render_code, render_otherwiseOf, testTexts_testsOf, selectionChain]
  simp only [render_append, render_cons, render_nil, Piece.render, String.append_assoc,
    String.append_empty]
  rfl

/-- The code of a selection declares its temporary and goes on with one chain, which tests
the temporary against each pattern in turn. Whatever the outcomes of these tests, control
enters one branch and no other: that of the first arm with a pattern whose test holds, else
that of the first arm without a pattern, else a throw. -/
theorem selection_enters_one_branch (width level n : Nat) (s : Span) (subject : Expr)
    (arms : List Arm) :
    let free := n + 1 + temporaries subject.visits
    let values := valueArms free arms
    let text := fun a : ValueArm =>
      armText width (level + 2) (a.number + temporaries a.pattern.visits) a.body
    let otherwise := otherwiseText width (if values.isEmpty then level + 1 else level + 2)
      (free + temporaries (valueArmsVisits arms)) (temporary n) (defaultBody? arms)
    ∃ chain : Js.Chain,
      ((Expr.select s subject arms).code level n).render width =
        (if subject.awaits || armsAwait arms then "await (async () => \x7b\n" else "(() => \x7b\n")
          ++ margin width (level + 1) ++ "const " ++ temporary n ++ " = "
          ++ (subject.code level (n + 1)).render width ++ ";\n"
          ++ chain.text (margin width (level + 1)) ++ margin width level ++ "\x7d)()" ∧
      values.map (fun a => (⟨some a.pattern, a.body⟩ : Arm)) =
        arms.filter (fun a => a.pattern.isSome) ∧
      chain.conditions = values.map (fun a =>
        temporary n ++ " === " ++ (a.pattern.code (level + 1) a.number).render width) ∧
      chain.bodies = values.map text ++ [otherwise] ∧
      ∀ holds : Nat → Bool, ∃ k, (∀ j, chain.Enters holds j ↔ j = k) ∧
        chain.bodies[k]? = some (((takenArm? holds values).map text).getD otherwise) := by
  intro free values text otherwise
  have conditions : (selectionChain width (level + 1) n free arms).conditions =
      values.map (fun a =>
        temporary n ++ " === " ++ (a.pattern.code (level + 1) a.number).render width) := by
    rw [selectionChain, Js.Chain.conditions_ofTests, List.map_map]
    rfl
  have bodies : (selectionChain width (level + 1) n free arms).bodies =
      values.map text ++ [otherwise] := by
    rw [selectionChain, Js.Chain.bodies_ofTests, List.map_map]
    rfl
  refine ⟨selectionChain width (level + 1) n free arms, render_selection .., valueArms_eq ..,
    conditions, bodies, fun holds => ⟨Js.Chain.branch holds values.length, fun j => ?_, ?_⟩⟩
  · rw [Js.Chain.enters_iff, conditions, List.length_map]
  · rw [bodies]
    exact getElem?_branch holds text otherwise values

end TwoScript
