import Mathlib.Data.List.Forall2
import TwoScript.Code.Generate
import TwoScript.Proofs.Parse.Yield
import TwoScript.Proofs.Tree.Relabel

/-!
# Trees with the same code

Code generation reads a tree through the nodes that are met in it, through what waits, through
a few flags of its root, and through the code of its parts. `Twin` says that all of this is
alike for two trees, the spans of the nodes aside. One lemma for each form of node says that
trees whose parts are twins are twins. A transformation that keeps code is shown to do so by
these lemmas alone, without opening the generator again.
-/

namespace TwoScript

open Layout

def Visit.relabel (r : Labels) : Visit → Visit
  | selection s arms => selection (r.span s) arms
  | failed s => failed (r.span s)

@[simp] theorem map_relabel_same (visits : List Visit) :
    visits.map (Visit.relabel .same) = visits := by
  have same : Visit.relabel .same = id := by
    funext v
    cases v <;> rfl
  rw [same, List.map_id]

/-- Two expressions that code generation treats alike. -/
structure Expr.Twin (r : Labels) (e d : Expr) : Prop where
  visits : d.visits = e.visits.map (Visit.relabel r)
  awaits : d.awaits = e.awaits
  code : ∀ level n, d.code level n = e.code level n
  parens : ∀ strength isRight, d.needsParens strength isRight = e.needsParens strength isRight
  number : d.isNumber = e.isNumber
  awaited : d.isAwaitedSelection = e.isAwaitedSelection

/-- Two operands that code generation treats alike, together with the parentheses that they
get where `wraps` holds. -/
structure Expr.OperandTwin (r : Labels) (wraps : Expr → Bool) (e d : Expr) : Prop where
  visits : d.visits = e.visits.map (Visit.relabel r)
  awaits : d.awaits = e.awaits
  code : ∀ level n, parenthesized (wraps d) (d.code level n) =
    parenthesized (wraps e) (e.code level n)

structure Statement.Twin (r : Labels) (s t : Statement) : Prop where
  visits : t.visits = s.visits.map (Visit.relabel r)
  awaits : t.awaits = s.awaits
  code : ∀ role level n, t.code role level n = s.code role level n
  alternative : ∀ level n, elseCode level n (some t) = elseCode level n (some s)
  declaration : t.isDeclaration = s.isDeclaration

inductive Arm.Twin (r : Labels) : Arm → Arm → Prop where
  | default {s t : Statement} (body : s.Twin r t) : Twin r ⟨none, s⟩ ⟨none, t⟩
  | value {e d : Expr} {s t : Statement} (pattern : e.Twin r d) (body : s.Twin r t) :
      Twin r ⟨some e, s⟩ ⟨some d, t⟩

inductive Part.Twin (r : Labels) : Part → Part → Prop where
  | text (text : String) : Twin r (.text text) (.text text)
  | expr {e d : Expr} (inner : e.Twin r d) : Twin r (.expr e) (.expr d)

inductive Parameter.Twin (r : Labels) : Parameter → Parameter → Prop where
  | plain {name name' : String} {type type' : Option String}
      (bound : bindingName name' = bindingName name) :
      Twin r ⟨name, type, none⟩ ⟨name', type', none⟩
  | default {name name' : String} {type type' : Option String} {e d : Expr}
      (bound : bindingName name' = bindingName name) (value : e.Twin r d) :
      Twin r ⟨name, type, some e⟩ ⟨name', type', some d⟩

inductive HandlerTwin (r : Labels) : Option Handler → Option Handler → Prop where
  | none : HandlerTwin r none none
  | bare {body body' : List Statement} (inside : List.Forall₂ (Statement.Twin r) body body') :
      HandlerTwin r (some ⟨.none, body⟩) (some ⟨.none, body'⟩)
  | bound {name name' : String} {body body' : List Statement}
      (bound : bindingName name' = bindingName name)
      (inside : List.Forall₂ (Statement.Twin r) body body') :
      HandlerTwin r (some ⟨some name, body⟩) (some ⟨some name', body'⟩)

inductive CleanupTwin (r : Labels) :
    Option (List Statement) → Option (List Statement) → Prop where
  | none : CleanupTwin r none none
  | some {body body' : List Statement} (inside : List.Forall₂ (Statement.Twin r) body body') :
      CleanupTwin r (some body) (some body')

/-- Two routines that code generation treats alike: functions are bound, methods are named. -/
structure Routine.Twin (r : Labels) (keyword : Bool) (m k : Routine) : Prop where
  name : if keyword then bindingName k.name = bindingName m.name else k.name = m.name
  params : List.Forall₂ (Parameter.Twin r) m.params k.params
  body : List.Forall₂ (Statement.Twin r) m.body k.body
  async : k.async = m.async

section

variable {r : Labels} {s s' : Span}

theorem temporaries_relabel (visits : List Visit) :
    temporaries (visits.map (Visit.relabel r)) = temporaries visits := by
  rw [temporaries, List.countP_map, temporaries]
  congr 1
  funext v
  cases v <;> rfl

/-! ## Parts of expressions -/

theorem argsTwin {args args' : List Expr} (h : List.Forall₂ (Expr.Twin r) args args') :
    argsVisits args' = (argsVisits args).map (Visit.relabel r) ∧
      argsAwait args' = argsAwait args ∧
      ∀ level n, argsCode level n args' = argsCode level n args := by
  induction h with
  | nil => exact ⟨rfl, rfl, fun _ _ => rfl⟩
  | cons first rest ih =>
      obtain ⟨visits, awaits, code⟩ := ih
      refine ⟨?_, ?_, fun level n => ?_⟩
      · simp only [argsVisits, first.visits, visits, List.map_append]
      · simp only [argsAwait, first.awaits, awaits]
      · cases rest with
        | nil => simp only [argsCode, first.code]
        | cons =>
            simp only [argsCode, first.visits, temporaries_relabel, first.code, code]

theorem armsTwin {arms arms' : List Arm} (h : List.Forall₂ (Arm.Twin r) arms arms') :
    valueArmsVisits arms' = (valueArmsVisits arms).map (Visit.relabel r) ∧
      defaultArmVisits arms' = (defaultArmVisits arms).map (Visit.relabel r) ∧
      armsAwait arms' = armsAwait arms ∧
      (∀ level n, testsOf level n arms' = testsOf level n arms) ∧
      ∀ level temp n, otherwiseOf level temp n arms' = otherwiseOf level temp n arms := by
  induction h with
  | nil => exact ⟨rfl, rfl, rfl, fun _ _ => rfl, fun _ _ _ => rfl⟩
  | cons first rest ih =>
      obtain ⟨valued, default, awaits, tests, otherwise⟩ := ih
      cases first with
      | default body =>
          refine ⟨?_, ?_, ?_, fun level n => ?_, fun level temp n => ?_⟩
          · simp only [valueArmsVisits, valued]
          · simp only [defaultArmVisits, body.visits]
          · simp only [armsAwait, body.awaits, awaits]
          · simp only [testsOf, tests]
          · simp only [otherwiseOf, body.code]
      | value pattern body =>
          refine ⟨?_, ?_, ?_, fun level n => ?_, fun level temp n => ?_⟩
          · simp only [valueArmsVisits, pattern.visits, body.visits, valued, List.map_append]
          · simp only [defaultArmVisits, default]
          · simp only [armsAwait, pattern.awaits, body.awaits, awaits]
          · simp only [testsOf, pattern.visits, body.visits, temporaries_relabel, pattern.code,
              body.code, tests]
          · simp only [otherwiseOf, otherwise]

theorem partsTwin {parts parts' : List Part} (h : List.Forall₂ (Part.Twin r) parts parts') :
    partsVisits parts' = (partsVisits parts).map (Visit.relabel r) ∧
      partsAwait parts' = partsAwait parts ∧
      ∀ level n, partsCode level n parts' = partsCode level n parts := by
  induction h with
  | nil => exact ⟨rfl, rfl, fun _ _ => rfl⟩
  | cons first _ ih =>
      obtain ⟨visits, awaits, code⟩ := ih
      cases first with
      | text => exact ⟨visits, awaits, fun level n => by simp only [partsCode, code]⟩
      | expr inner =>
          refine ⟨?_, ?_, fun level n => ?_⟩
          · simp only [partsVisits, inner.visits, visits, List.map_append]
          · simp only [partsAwait, inner.awaits, awaits]
          · simp only [partsCode, inner.visits, temporaries_relabel, inner.code, code]

/-! ## Expressions -/

namespace Expr

variable {e d a a' b b' : Expr} {wraps : Expr → Bool}

theorem Twin.refl (e : Expr) : e.Twin .same e :=
  ⟨by simp, rfl, fun _ _ => rfl, fun _ _ => rfl, rfl, rfl⟩

theorem Twin.operand (h : e.Twin r d) (same : wraps d = wraps e) : e.OperandTwin r wraps d :=
  ⟨h.visits, h.awaits, fun level n => by rw [same, h.code]⟩

theorem Twin.literal (value : Literal) : (Expr.literal s value).Twin r (.literal s' value) where
  visits := rfl
  awaits := rfl
  code _ _ := rfl
  parens _ _ := rfl
  number := by cases value <;> rfl
  awaited := rfl

theorem Twin.ident {name name' : String} (bound : bindingName name' = bindingName name) :
    (Expr.ident s name).Twin r (.ident s' name') where
  visits := rfl
  awaits := rfl
  code _ _ := by simp only [Expr.code, bound]
  parens _ _ := rfl
  number := rfl
  awaited := rfl

theorem Twin.assign {op : AssignOp} (target : a.Twin r a') (value : b.Twin r b') :
    (Expr.assign s op a b).Twin r (.assign s' op a' b') where
  visits := by simp only [Expr.visits, target.visits, value.visits, List.map_append]
  awaits := by simp only [Expr.awaits, target.awaits, value.awaits]
  code level n := by
    simp only [Expr.code, target.visits, temporaries_relabel, target.code, value.code]
  parens _ _ := rfl
  number := rfl
  awaited := rfl

theorem Twin.binary {op : BinaryOp}
    (left : a.OperandTwin r (·.needsParens op.strength false) a')
    (right : b.OperandTwin r (·.needsParens op.strength true) b') :
    (Expr.binary s op a b).Twin r (.binary s' op a' b') where
  visits := by simp only [Expr.visits, left.visits, right.visits, List.map_append]
  awaits := by simp only [Expr.awaits, left.awaits, right.awaits]
  code level n := by
    simp only [Expr.code, left.visits, temporaries_relabel, left.code, right.code]
  parens _ _ := rfl
  number := rfl
  awaited := rfl

theorem Twin.unary {op : UnaryOp}
    (operand : a.OperandTwin r (·.needsParens unaryStrength false) a') :
    (Expr.unary s op a).Twin r (.unary s' op a') where
  visits := operand.visits
  awaits := operand.awaits
  code level n := by simp only [Expr.code, operand.code]
  parens _ _ := rfl
  number := rfl
  awaited := rfl

theorem Twin.await (operand : a.OperandTwin r (·.needsParens unaryStrength false) a') :
    (Expr.await s a).Twin r (.await s' a') where
  visits := operand.visits
  awaits := rfl
  code level n := by simp only [Expr.code, operand.code]
  parens _ _ := rfl
  number := rfl
  awaited := rfl

theorem Twin.group (inner : a.Twin r a') : (Expr.group s a).Twin r (.group s' a') where
  visits := inner.visits
  awaits := inner.awaits
  code level n := by simp only [Expr.code, inner.code]
  parens _ _ := rfl
  number := rfl
  awaited := rfl

theorem Twin.call {args args' : List Expr} (callee : a.OperandTwin r isAwaitedSelection a')
    (h : List.Forall₂ (Expr.Twin r) args args') :
    (Expr.call s a args).Twin r (.call s' a' args') := by
  obtain ⟨visits, awaits, code⟩ := argsTwin h
  refine ⟨?_, ?_, fun level n => ?_, fun _ _ => rfl, rfl, rfl⟩
  · simp only [Expr.visits, callee.visits, visits, List.map_append]
  · simp only [Expr.awaits, callee.awaits, awaits]
  · simp only [Expr.code, callee.visits, temporaries_relabel, callee.code, code]

theorem Twin.member {property : String}
    (object : a.OperandTwin r (fun e => e.isAwaitedSelection || e.isNumber) a') :
    (Expr.member s a property).Twin r (.member s' a' property) where
  visits := object.visits
  awaits := object.awaits
  code level n := by simp only [Expr.code, object.code]
  parens _ _ := rfl
  number := rfl
  awaited := rfl

theorem Twin.select {arms arms' : List Arm} (subject : a.Twin r a')
    (h : List.Forall₂ (Arm.Twin r) arms arms') :
    (Expr.select s a arms).Twin r (.select (r.span s) a' arms') := by
  obtain ⟨valued, default, awaits, tests, otherwise⟩ := armsTwin h
  have waits : (Expr.select (r.span s) a' arms').awaits = (Expr.select s a arms).awaits := by
    simp only [Expr.awaits, subject.awaits, awaits]
  refine ⟨?_, waits, fun level n => ?_, fun _ _ => rfl, rfl, waits⟩
  · simp only [Expr.visits, h.length_eq, subject.visits, valued, default, List.map_append,
      List.map_cons, Visit.relabel]
  · simp only [Expr.code, subject.visits, subject.awaits, subject.code, valued, awaits, tests,
      otherwise, temporaries_relabel]

theorem Twin.template {parts parts' : List Part}
    (h : List.Forall₂ (Part.Twin r) parts parts') :
    (Expr.template s parts).Twin r (.template s' parts') := by
  obtain ⟨visits, awaits, code⟩ := partsTwin h
  refine ⟨visits, awaits, fun level n => ?_, fun _ _ => rfl, rfl, rfl⟩
  simp only [Expr.code, code]

end Expr

/-! ## Parts of statements -/

theorem bodyTwin {body body' : List Statement} (h : List.Forall₂ (Statement.Twin r) body body') :
    bodyVisits body' = (bodyVisits body).map (Visit.relabel r) ∧
      bodyAwaits body' = bodyAwaits body ∧
      ∀ level n, bodyCode level n body' = bodyCode level n body := by
  induction h with
  | nil => exact ⟨rfl, rfl, fun _ _ => rfl⟩
  | cons first _ ih =>
      obtain ⟨visits, awaits, code⟩ := ih
      refine ⟨?_, ?_, fun level n => ?_⟩
      · simp only [bodyVisits, first.visits, visits, List.map_append]
      · simp only [bodyAwaits, first.awaits, awaits]
      · simp only [bodyCode, first.visits, temporaries_relabel, first.code, code]

theorem HandlerTwin.facts {handler handler' : Option Handler} (h : HandlerTwin r handler handler') :
    handlerVisits handler' = (handlerVisits handler).map (Visit.relabel r) ∧
      handlerAwaits handler' = handlerAwaits handler ∧
      ∀ level n, handlerCode level n handler' = handlerCode level n handler := by
  cases h with
  | none => exact ⟨rfl, rfl, fun _ _ => rfl⟩
  | bare inside =>
      obtain ⟨visits, awaits, code⟩ := bodyTwin inside
      exact ⟨visits, awaits, fun level n => by simp only [handlerCode, code]⟩
  | bound bound inside =>
      obtain ⟨visits, awaits, code⟩ := bodyTwin inside
      exact ⟨visits, awaits, fun level n => by simp only [handlerCode, bound, code]⟩

theorem CleanupTwin.facts {cleanup cleanup' : Option (List Statement)}
    (h : CleanupTwin r cleanup cleanup') :
    cleanupVisits cleanup' = (cleanupVisits cleanup).map (Visit.relabel r) ∧
      cleanupAwaits cleanup' = cleanupAwaits cleanup ∧
      ∀ level n, cleanupCode level n cleanup' = cleanupCode level n cleanup := by
  cases h with
  | none => exact ⟨rfl, rfl, fun _ _ => rfl⟩
  | some inside =>
      obtain ⟨visits, awaits, code⟩ := bodyTwin inside
      exact ⟨visits, awaits, fun level n => by simp only [cleanupCode, code]⟩

theorem paramsTwin {params params' : List Parameter}
    (h : List.Forall₂ (Parameter.Twin r) params params') :
    paramsVisits params' = (paramsVisits params).map (Visit.relabel r) ∧
      ∀ level n, paramsCode level n params' = paramsCode level n params := by
  induction h with
  | nil => exact ⟨rfl, fun _ _ => rfl⟩
  | cons first rest ih =>
      obtain ⟨visits, code⟩ := ih
      cases first with
      | plain bound =>
          refine ⟨visits, fun level n => ?_⟩
          cases rest with
          | nil => simp only [paramsCode, Parameter.code, bound]
          | cons => simp only [paramsCode, Parameter.code, paramsVisits, bound, code]
      | default bound value =>
          refine ⟨?_, fun level n => ?_⟩
          · simp only [paramsVisits, value.visits, visits, List.map_append]
          · cases rest with
            | nil => simp only [paramsCode, Parameter.code, bound, value.code]
            | cons =>
                simp only [paramsCode, Parameter.code, paramsVisits, bound, value.visits,
                  value.code, code, List.append_nil, temporaries_relabel]

theorem Routine.Twin.facts {keyword : Bool} {m k : Routine} (h : m.Twin r keyword k) :
    k.visits = m.visits.map (Visit.relabel r) ∧
      ∀ level n, k.code level n keyword = m.code level n keyword := by
  obtain ⟨name, params, returns, body, async⟩ := m
  obtain ⟨name', params', returns', body', async'⟩ := k
  obtain ⟨named, given, inside, rfl⟩ := h
  obtain ⟨met, written⟩ := paramsTwin given
  obtain ⟨visits, -, code⟩ := bodyTwin inside
  refine ⟨?_, fun level n => ?_⟩
  · simp only [Routine.visits, met, visits, List.map_append]
  · have same : (if keyword then "function " ++ bindingName name' else name') =
        if keyword then "function " ++ bindingName name else name := by
      cases keyword <;> simp_all
    simp only [Routine.code, same, met, temporaries_relabel, written, code]

theorem methodsTwin {methods methods' : List Routine}
    (h : List.Forall₂ (Routine.Twin r false) methods methods') :
    routinesVisits methods' = (routinesVisits methods).map (Visit.relabel r) ∧
      ∀ level n, methodsCode level n methods' = methodsCode level n methods := by
  induction h with
  | nil => exact ⟨rfl, fun _ _ => rfl⟩
  | cons first rest ih =>
      obtain ⟨visits, code⟩ := ih
      obtain ⟨met, written⟩ := first.facts
      refine ⟨?_, fun level n => ?_⟩
      · simp only [routinesVisits, met, visits, List.map_append]
      · cases rest with
        | nil => simp only [methodsCode, written]
        | cons => simp only [methodsCode, met, temporaries_relabel, written, code]

/-! ## Statements -/

/-- An alternative that is neither a conditional nor a block stands between braces. -/
theorem elseCode_of_other {s : Statement} (level n : Nat) (conditional : s.isConditional = false)
    (block : s.isBlock = false) :
    elseCode level n (some s) =
      textLine level "\x7d else \x7b" ++ s.code .plain (level + 1) n ++ textLine level "\x7d" := by
  cases s with
  | conditional _ _ _ _ => cases conditional
  | block _ _ => cases block
  | _ => rw [elseCode] <;> simp

namespace Statement.Twin

variable {e d : Expr} {body body' : List Statement}

/-- Statements that are neither conditionals nor blocks have the same code as alternatives. -/
theorem of_code {s t : Statement} (visits : t.visits = s.visits.map (Visit.relabel r))
    (awaits : t.awaits = s.awaits)
    (code : ∀ role level n, t.code role level n = s.code role level n)
    (declaration : t.isDeclaration = s.isDeclaration)
    (plain : s.isConditional = false ∧ s.isBlock = false)
    (plain' : t.isConditional = false ∧ t.isBlock = false) : s.Twin r t where
  visits := visits
  awaits := awaits
  code := code
  alternative level n := by
    rw [elseCode_of_other level n plain.1 plain.2, elseCode_of_other level n plain'.1 plain'.2,
      code]
  declaration := declaration

theorem function {m k : Routine} (h : m.Twin r true k) :
    (Statement.function s m).Twin r (.function s' k) := by
  obtain ⟨visits, code⟩ := h.facts
  refine .of_code visits rfl (fun role level n => ?_) rfl ⟨rfl, rfl⟩ ⟨rfl, rfl⟩
  simp only [Statement.code, code]

theorem classDecl {name name' : String} {methods methods' : List Routine}
    (bound : bindingName name' = bindingName name)
    (h : List.Forall₂ (Routine.Twin r false) methods methods') :
    (Statement.classDecl s name methods).Twin r (.classDecl s' name' methods') := by
  obtain ⟨visits, code⟩ := methodsTwin h
  refine .of_code visits rfl (fun role level n => ?_) rfl ⟨rfl, rfl⟩ ⟨rfl, rfl⟩
  simp only [Statement.code, bound, code]

theorem declare_none {constant : Bool} {name name' : String} {type type' : Option String}
    (bound : bindingName name' = bindingName name) :
    (Statement.declare s constant name type none).Twin r (.declare s' constant name' type' none) :=
  .of_code rfl rfl (fun _ _ _ => by simp only [Statement.code, bound]) rfl ⟨rfl, rfl⟩ ⟨rfl, rfl⟩

theorem declare_some {constant : Bool} {name name' : String} {type type' : Option String}
    (bound : bindingName name' = bindingName name) (initial : e.Twin r d) :
    (Statement.declare s constant name type (some e)).Twin r
      (.declare s' constant name' type' (some d)) :=
  .of_code initial.visits initial.awaits
    (fun _ _ _ => by simp only [Statement.code, bound, initial.code]) rfl ⟨rfl, rfl⟩ ⟨rfl, rfl⟩

theorem conditional_none (condition : e.Twin r d)
    (h : List.Forall₂ (Statement.Twin r) body body') :
    (Statement.conditional s e body none).Twin r (.conditional s' d body' none) := by
  obtain ⟨visits, awaits, code⟩ := bodyTwin h
  refine ⟨?_, ?_, fun role level n => ?_, fun level n => ?_, rfl⟩
  · simp only [Statement.visits, condition.visits, visits, List.map_append]
  · simp only [Statement.awaits, condition.awaits, awaits]
  · simp only [Statement.code, elseCode, condition.visits, temporaries_relabel, condition.code,
      code]
  · simp only [elseCode, condition.visits, temporaries_relabel, condition.code, code]

theorem conditional_some {u v : Statement} (condition : e.Twin r d)
    (h : List.Forall₂ (Statement.Twin r) body body') (otherwise : u.Twin r v) :
    (Statement.conditional s e body (some u)).Twin r (.conditional s' d body' (some v)) := by
  obtain ⟨visits, awaits, code⟩ := bodyTwin h
  refine ⟨?_, ?_, fun role level n => ?_, fun level n => ?_, rfl⟩
  · simp only [Statement.visits, condition.visits, visits, otherwise.visits, List.map_append]
  · simp only [Statement.awaits, condition.awaits, awaits, otherwise.awaits]
  · simp only [Statement.code, condition.visits, visits, temporaries_relabel, condition.code, code,
      otherwise.alternative]
  · simp only [elseCode, condition.visits, visits, temporaries_relabel, condition.code, code,
      otherwise.alternative]

theorem attempt {handler handler' : Option Handler} {cleanup cleanup' : Option (List Statement)}
    (h : List.Forall₂ (Statement.Twin r) body body') (handled : HandlerTwin r handler handler')
    (cleaned : CleanupTwin r cleanup cleanup') :
    (Statement.attempt s body handler cleanup).Twin r (.attempt s' body' handler' cleanup') := by
  obtain ⟨visits, awaits, code⟩ := bodyTwin h
  obtain ⟨met, waits, written⟩ := handled.facts
  obtain ⟨left, stays, closed⟩ := cleaned.facts
  refine .of_code ?_ ?_ (fun role level n => ?_) rfl ⟨rfl, rfl⟩ ⟨rfl, rfl⟩
  · simp only [Statement.visits, visits, met, left, List.map_append]
  · simp only [Statement.awaits, awaits, waits, stays]
  · simp only [Statement.code, visits, temporaries_relabel, code, met, written, closed]

theorem returning_none : (Statement.returning s none).Twin r (.returning s' none) :=
  .of_code rfl rfl (fun _ _ _ => rfl) rfl ⟨rfl, rfl⟩ ⟨rfl, rfl⟩

theorem returning_some (value : e.Twin r d) :
    (Statement.returning s (some e)).Twin r (.returning s' (some d)) :=
  .of_code value.visits value.awaits (fun _ _ _ => by simp only [Statement.code, value.code]) rfl
    ⟨rfl, rfl⟩ ⟨rfl, rfl⟩

theorem block (h : List.Forall₂ (Statement.Twin r) body body') :
    (Statement.block s body).Twin r (.block s' body') := by
  obtain ⟨visits, awaits, code⟩ := bodyTwin h
  refine ⟨visits, awaits, fun role level n => ?_, fun level n => ?_, rfl⟩
  · simp only [Statement.code, code]
  · simp only [elseCode, code]

theorem expression (value : e.Twin r d) : (Statement.expression s e).Twin r (.expression s' d) :=
  .of_code value.visits value.awaits (fun _ _ _ => by simp only [Statement.code, value.code]) rfl
    ⟨rfl, rfl⟩ ⟨rfl, rfl⟩

theorem failed : (Statement.failed s).Twin r (.failed (r.span s)) :=
  .of_code rfl rfl (fun _ _ _ => rfl) rfl ⟨rfl, rfl⟩ ⟨rfl, rfl⟩

end Statement.Twin

/-- Programs of twins have the same code. -/
theorem programCode_twin {statements statements' : List Statement}
    (h : List.Forall₂ (Statement.Twin r) statements statements') (n : Nat) :
    programCode n statements' = programCode n statements := by
  induction h generalizing n with
  | nil => rfl
  | cons first rest ih =>
      cases rest with
      | nil => simp only [programCode, first.code]
      | cons =>
          simp only [programCode, first.visits, temporaries_relabel, first.code,
            first.declaration, ih]

end

end TwoScript
