import TwoScript.Proofs.Code.Labels
import TwoScript.Proofs.Parse.Complete

/-!
# The parentheses that code adds

`regroup` puts a group around every operand that generated code puts between
parentheses, and drops the types, which code has not. The code of the regrouped tree
is that of the tree, but now each of its parentheses comes from the tree, so that the
tree can be read back from it.

`strip` goes the other way and drops groups and types; a tree and its regrouping agree
in what is left.
-/

namespace TwoScript

def Expr.groupedIf (wrapped : Bool) (e : Expr) : Expr :=
  if wrapped then .group default e else e

mutual

/-- The expression with the groups that its code shows. -/
def Expr.regroup : Expr → Expr
  | .literal s value => .literal s value
  | .ident s name => .ident s name
  | .assign s op target value => .assign s op target.regroup value.regroup
  | .binary s op left right =>
    .binary s op (left.regroup.groupedIf (left.needsParens op.strength false))
      (right.regroup.groupedIf (right.needsParens op.strength true))
  | .unary s op operand =>
    .unary s op (operand.regroup.groupedIf (operand.needsParens unaryStrength false))
  | .group s inner => .group s inner.regroup
  | .call s callee args =>
    .call s (callee.regroup.groupedIf callee.isAwaitedSelection) (argsRegroup args)
  | .member s object property =>
    .member s (object.regroup.groupedIf (object.isAwaitedSelection || object.isNumber)) property
  | .await s operand =>
    .await s (operand.regroup.groupedIf (operand.needsParens unaryStrength false))
  | .select s subject arms => .select s subject arms
  | .template s parts => .template s (partsRegroup parts)

def argsRegroup : List Expr → List Expr
  | [] => []
  | e :: es => e.regroup :: argsRegroup es

def partsRegroup : List Part → List Part
  | [] => []
  | .text text :: parts => .text text :: partsRegroup parts
  | .expr e :: parts => .expr e.regroup :: partsRegroup parts

def Statement.regroup : Statement → Statement
  | .function s routine => .function s routine.regroup
  | .classDecl s name methods => .classDecl s name (routinesRegroup methods)
  | .declare s constant name _ none => .declare s constant name none none
  | .declare s constant name _ (some initial) =>
    .declare s constant name none (some initial.regroup)
  | .conditional s condition body none =>
    .conditional s condition.regroup (bodyRegroup body) none
  | .conditional s condition body (some otherwise) =>
    .conditional s condition.regroup (bodyRegroup body) (some otherwise.regroup)
  | .attempt s body handler cleanup =>
    .attempt s (bodyRegroup body) (handlerRegroup handler) (cleanupRegroup cleanup)
  | .returning s none => .returning s none
  | .returning s (some value) => .returning s (some value.regroup)
  | .block s body => .block s (bodyRegroup body)
  | .expression s value => .expression s value.regroup
  | .failed s => .failed s

def bodyRegroup : List Statement → List Statement
  | [] => []
  | s :: ss => s.regroup :: bodyRegroup ss

def handlerRegroup : Option Handler → Option Handler
  | none => none
  | some ⟨binding, body⟩ => some ⟨binding, bodyRegroup body⟩

def cleanupRegroup : Option (List Statement) → Option (List Statement)
  | none => none
  | some body => some (bodyRegroup body)

def Routine.regroup : Routine → Routine
  | ⟨name, params, _, body, async⟩ => ⟨name, paramsRegroup params, none, bodyRegroup body, async⟩

def routinesRegroup : List Routine → List Routine
  | [] => []
  | r :: rs => r.regroup :: routinesRegroup rs

def paramsRegroup : List Parameter → List Parameter
  | [] => []
  | ⟨name, _, none⟩ :: params => ⟨name, none, none⟩ :: paramsRegroup params
  | ⟨name, _, some value⟩ :: params => ⟨name, none, some value.regroup⟩ :: paramsRegroup params

end

mutual

/-- The expression without groups and types. -/
def Expr.strip : Expr → Expr
  | .literal s value => .literal s value
  | .ident s name => .ident s name
  | .assign s op target value => .assign s op target.strip value.strip
  | .binary s op left right => .binary s op left.strip right.strip
  | .unary s op operand => .unary s op operand.strip
  | .group _ inner => inner.strip
  | .call s callee args => .call s callee.strip (argsStrip args)
  | .member s object property => .member s object.strip property
  | .await s operand => .await s operand.strip
  | .select s subject arms => .select s subject.strip (armsStrip arms)
  | .template s parts => .template s (partsStrip parts)

def argsStrip : List Expr → List Expr
  | [] => []
  | e :: es => e.strip :: argsStrip es

def armsStrip : List Arm → List Arm
  | [] => []
  | ⟨none, body⟩ :: arms => ⟨none, body.strip⟩ :: armsStrip arms
  | ⟨some pattern, body⟩ :: arms => ⟨some pattern.strip, body.strip⟩ :: armsStrip arms

def partsStrip : List Part → List Part
  | [] => []
  | .text text :: parts => .text text :: partsStrip parts
  | .expr e :: parts => .expr e.strip :: partsStrip parts

def Statement.strip : Statement → Statement
  | .function s routine => .function s routine.strip
  | .classDecl s name methods => .classDecl s name (routinesStrip methods)
  | .declare s constant name _ none => .declare s constant name none none
  | .declare s constant name _ (some initial) => .declare s constant name none (some initial.strip)
  | .conditional s condition body none => .conditional s condition.strip (bodyStrip body) none
  | .conditional s condition body (some otherwise) =>
    .conditional s condition.strip (bodyStrip body) (some otherwise.strip)
  | .attempt s body handler cleanup =>
    .attempt s (bodyStrip body) (handlerStrip handler) (cleanupStrip cleanup)
  | .returning s none => .returning s none
  | .returning s (some value) => .returning s (some value.strip)
  | .block s body => .block s (bodyStrip body)
  | .expression s value => .expression s value.strip
  | .failed s => .failed s

def bodyStrip : List Statement → List Statement
  | [] => []
  | s :: ss => s.strip :: bodyStrip ss

def handlerStrip : Option Handler → Option Handler
  | none => none
  | some ⟨binding, body⟩ => some ⟨binding, bodyStrip body⟩

def cleanupStrip : Option (List Statement) → Option (List Statement)
  | none => none
  | some body => some (bodyStrip body)

def Routine.strip : Routine → Routine
  | ⟨name, params, _, body, async⟩ => ⟨name, paramsStrip params, none, bodyStrip body, async⟩

def routinesStrip : List Routine → List Routine
  | [] => []
  | r :: rs => r.strip :: routinesStrip rs

def paramsStrip : List Parameter → List Parameter
  | [] => []
  | ⟨name, _, none⟩ :: params => ⟨name, none, none⟩ :: paramsStrip params
  | ⟨name, _, some value⟩ :: params => ⟨name, none, some value.strip⟩ :: paramsStrip params

end

/-! ## Roots -/

def Parameter.regroup (p : Parameter) : Parameter :=
  ⟨p.name, none, p.default.map Expr.regroup⟩

theorem paramsRegroup_eq_map (params : List Parameter) :
    paramsRegroup params = params.map Parameter.regroup := by
  induction params with
  | nil => rfl
  | cons p params ih =>
      obtain ⟨name, type, _ | value⟩ := p <;> rw [paramsRegroup, ih, List.map_cons] <;> rfl

theorem routinesRegroup_eq_map (routines : List Routine) :
    routinesRegroup routines = routines.map Routine.regroup := by
  induction routines with
  | nil => rfl
  | cons r rs ih => rw [routinesRegroup, ih, List.map_cons]

@[simp] theorem isNone_handlerRegroup (handler : Option Handler) :
    (handlerRegroup handler).isNone = handler.isNone := by
  rcases handler with _ | ⟨binding, body⟩ <;> rfl

@[simp] theorem isNone_cleanupRegroup (cleanup : Option (List Statement)) :
    (cleanupRegroup cleanup).isNone = cleanup.isNone := by
  cases cleanup <;> rfl

section

variable {e : Expr}

@[simp] theorem Expr.isAssignable_regroup : e.regroup.isAssignable = e.isAssignable := by
  cases e <;> rfl

@[simp] theorem Expr.isAssignment_regroup : e.regroup.isAssignment = e.isAssignment := by
  cases e <;> rfl

@[simp] theorem Expr.head_regroup : e.regroup.head = e.head := by
  cases e <;> rfl

@[simp] theorem Expr.tail_regroup : e.regroup.tail = e.tail := by
  cases e <;> rfl

@[simp] theorem Statement.isConditional_regroup (s : Statement) :
    s.regroup.isConditional = s.isConditional := by
  cases s with
  | declare _ _ _ _ initial => cases initial <;> rfl
  | conditional _ _ _ otherwise => cases otherwise <;> rfl
  | returning _ value => cases value <;> rfl
  | _ => rfl

@[simp] theorem Statement.isBlock_regroup (s : Statement) : s.regroup.isBlock = s.isBlock := by
  cases s with
  | declare _ _ _ _ initial => cases initial <;> rfl
  | conditional _ _ _ otherwise => cases otherwise <;> rfl
  | returning _ value => cases value <;> rfl
  | _ => rfl

end

/-! ## Code -/

/-- Parentheses that code adds around an operand are those of the group around it. -/
theorem Expr.Twin.groupedIf {e d : Expr} {wraps : Expr → Bool} (h : e.Twin .same d)
    (same : wraps d = wraps e) (grouped : ∀ s inner, wraps (.group s inner) = false) :
    e.OperandTwin .same wraps (d.groupedIf (wraps e)) := by
  cases wrapped : wraps e with
  | false => exact h.operand same
  | true =>
      refine ⟨h.visits, h.awaits, fun level n => ?_⟩
      rw [Expr.groupedIf, if_pos rfl, grouped, wrapped, Expr.code, h.code]
      rfl

mutual

theorem Expr.twin_regroup : ∀ e : Expr, e.Twin .same e.regroup
  | .literal _ value => .literal value
  | .ident _ _ => .ident rfl
  | .assign _ _ target value => .assign target.twin_regroup value.twin_regroup
  | .binary _ _ left right => by
    have first := left.twin_regroup
    have second := right.twin_regroup
    exact .binary (first.groupedIf (first.parens _ _) fun _ _ => rfl)
      (second.groupedIf (second.parens _ _) fun _ _ => rfl)
  | .unary _ _ operand => by
    have inner := operand.twin_regroup
    exact .unary (inner.groupedIf (inner.parens _ _) fun _ _ => rfl)
  | .group _ inner => .group inner.twin_regroup
  | .call _ callee args => by
    have first := callee.twin_regroup
    exact .call (first.groupedIf first.awaited fun _ _ => rfl) (argsTwin_regroup args)
  | .member _ object _ => by
    have inner := object.twin_regroup
    have same : (object.regroup.isAwaitedSelection || object.regroup.isNumber) =
        (object.isAwaitedSelection || object.isNumber) := by
      rw [inner.awaited, inner.number]
    exact .member (inner.groupedIf same fun _ _ => rfl)
  | .await _ operand => by
    have inner := operand.twin_regroup
    exact .await (inner.groupedIf (inner.parens _ _) fun _ _ => rfl)
  | .select s subject arms => .refl (.select s subject arms)
  | .template _ parts => .template (partsTwin_regroup parts)

theorem argsTwin_regroup : ∀ args : List Expr,
    List.Forall₂ (Expr.Twin .same) args (argsRegroup args)
  | [] => .nil
  | e :: es => .cons e.twin_regroup (argsTwin_regroup es)

theorem partsTwin_regroup : ∀ parts : List Part,
    List.Forall₂ (Part.Twin .same) parts (partsRegroup parts)
  | [] => .nil
  | .text text :: parts => .cons (.text text) (partsTwin_regroup parts)
  | .expr e :: parts => .cons (.expr e.twin_regroup) (partsTwin_regroup parts)

theorem Statement.twin_regroup : ∀ s : Statement, s.Twin .same s.regroup
  | .function _ routine => .function (routine.twin_regroup true)
  | .classDecl _ _ methods => .classDecl rfl (methodsTwin_regroup methods)
  | .declare _ _ _ _ none => .declare_none rfl
  | .declare _ _ _ _ (some initial) => .declare_some rfl initial.twin_regroup
  | .conditional _ condition body none =>
    .conditional_none condition.twin_regroup (bodyTwin_regroup body)
  | .conditional _ condition body (some otherwise) =>
    .conditional_some condition.twin_regroup (bodyTwin_regroup body) otherwise.twin_regroup
  | .attempt _ body handler cleanup =>
    .attempt (bodyTwin_regroup body) (handlerTwin_regroup handler) (cleanupTwin_regroup cleanup)
  | .returning _ none => .returning_none
  | .returning _ (some value) => .returning_some value.twin_regroup
  | .block _ body => .block (bodyTwin_regroup body)
  | .expression _ value => .expression value.twin_regroup
  | .failed _ => .failed

theorem bodyTwin_regroup : ∀ body : List Statement,
    List.Forall₂ (Statement.Twin .same) body (bodyRegroup body)
  | [] => .nil
  | s :: ss => .cons s.twin_regroup (bodyTwin_regroup ss)

theorem handlerTwin_regroup : ∀ handler : Option Handler,
    HandlerTwin .same handler (handlerRegroup handler)
  | none => .none
  | some ⟨none, body⟩ => .bare (bodyTwin_regroup body)
  | some ⟨some _, body⟩ => .bound rfl (bodyTwin_regroup body)

theorem cleanupTwin_regroup : ∀ cleanup : Option (List Statement),
    CleanupTwin .same cleanup (cleanupRegroup cleanup)
  | none => .none
  | some body => .some (bodyTwin_regroup body)

theorem Routine.twin_regroup (keyword : Bool) : ∀ m : Routine, m.Twin .same keyword m.regroup
  | ⟨_, params, _, body, _⟩ =>
    ⟨by cases keyword <;> rfl, paramsTwin_regroup params, bodyTwin_regroup body, rfl⟩

theorem methodsTwin_regroup : ∀ methods : List Routine,
    List.Forall₂ (Routine.Twin .same false) methods (routinesRegroup methods)
  | [] => .nil
  | m :: ms => .cons (m.twin_regroup false) (methodsTwin_regroup ms)

theorem paramsTwin_regroup : ∀ params : List Parameter,
    List.Forall₂ (Parameter.Twin .same) params (paramsRegroup params)
  | [] => .nil
  | ⟨_, _, none⟩ :: params => .cons (.plain rfl) (paramsTwin_regroup params)
  | ⟨_, _, some value⟩ :: params =>
    .cons (.default rfl value.twin_regroup) (paramsTwin_regroup params)

end

theorem bodyVisits_regroup (body : List Statement) :
    bodyVisits (bodyRegroup body) = bodyVisits body := by
  rw [(bodyTwin (bodyTwin_regroup body)).1, map_relabel_same]

theorem programCode_regroup (n : Nat) (statements : List Statement) :
    programCode n (bodyRegroup statements) = programCode n statements :=
  programCode_twin (bodyTwin_regroup statements) n

/-! ## What is left without groups -/

@[simp] theorem Expr.strip_groupedIf (r : Labels) (wrapped : Bool) (e : Expr) :
    ((e.groupedIf wrapped).relabel r).strip = (e.relabel r).strip := by
  cases wrapped <;> rfl

section

variable {r : Labels}

mutual

theorem Expr.strip_regroup : ∀ e : Expr, (e.regroup.relabel r).strip = (e.relabel r).strip
  | .literal _ _ | .ident _ _ | .select _ _ _ => rfl
  | .assign _ _ left right | .binary _ _ left right => by
    simp only [Expr.regroup, Expr.relabel, Expr.strip, Expr.strip_groupedIf,
      Expr.strip_regroup left, Expr.strip_regroup right]
  | .unary _ _ operand | .await _ operand | .group _ operand | .member _ operand _ => by
    simp only [Expr.regroup, Expr.relabel, Expr.strip, Expr.strip_groupedIf,
      Expr.strip_regroup operand]
  | .call _ callee args => by
    simp only [Expr.regroup, Expr.relabel, Expr.strip, Expr.strip_groupedIf,
      Expr.strip_regroup callee, argsStrip_regroup args]
  | .template _ parts => by
    simp only [Expr.regroup, Expr.relabel, Expr.strip, partsStrip_regroup parts]

theorem argsStrip_regroup : ∀ args : List Expr,
    argsStrip (argsRelabel r (argsRegroup args)) = argsStrip (argsRelabel r args)
  | [] => rfl
  | e :: es => by
    simp only [argsRegroup, argsRelabel, argsStrip, Expr.strip_regroup e, argsStrip_regroup es]

theorem partsStrip_regroup : ∀ parts : List Part,
    partsStrip (partsRelabel r (partsRegroup parts)) = partsStrip (partsRelabel r parts)
  | [] => rfl
  | .text _ :: parts => by
    simp only [partsRegroup, partsRelabel, partsStrip, partsStrip_regroup parts]
  | .expr e :: parts => by
    simp only [partsRegroup, partsRelabel, partsStrip, Expr.strip_regroup e,
      partsStrip_regroup parts]

theorem Statement.strip_regroup : ∀ s : Statement,
    (s.regroup.relabel r).strip = (s.relabel r).strip
  | .function _ routine => by
    simp only [Statement.regroup, Statement.relabel, Statement.strip, Routine.strip_regroup routine]
  | .classDecl _ _ methods => by
    simp only [Statement.regroup, Statement.relabel, Statement.strip, routinesStrip_regroup methods]
  | .declare _ _ _ _ none | .returning _ none | .failed _ => rfl
  | .declare _ _ _ _ (some value) | .returning _ (some value) | .expression _ value => by
    simp only [Statement.regroup, Statement.relabel, Statement.strip, Expr.strip_regroup value]
  | .conditional _ condition body none => by
    simp only [Statement.regroup, Statement.relabel, Statement.strip, Expr.strip_regroup condition,
      bodyStrip_regroup body]
  | .conditional _ condition body (some otherwise) => by
    simp only [Statement.regroup, Statement.relabel, Statement.strip, Expr.strip_regroup condition,
      bodyStrip_regroup body, Statement.strip_regroup otherwise]
  | .attempt _ body handler cleanup => by
    simp only [Statement.regroup, Statement.relabel, Statement.strip, bodyStrip_regroup body,
      handlerStrip_regroup handler, cleanupStrip_regroup cleanup]
  | .block _ body => by
    simp only [Statement.regroup, Statement.relabel, Statement.strip, bodyStrip_regroup body]

theorem bodyStrip_regroup : ∀ body : List Statement,
    bodyStrip (bodyRelabel r (bodyRegroup body)) = bodyStrip (bodyRelabel r body)
  | [] => rfl
  | s :: ss => by
    simp only [bodyRegroup, bodyRelabel, bodyStrip, Statement.strip_regroup s,
      bodyStrip_regroup ss]

theorem handlerStrip_regroup : ∀ handler : Option Handler,
    handlerStrip (handlerRelabel r (handlerRegroup handler)) =
      handlerStrip (handlerRelabel r handler)
  | none => rfl
  | some ⟨_, body⟩ => by
    simp only [handlerRegroup, handlerRelabel, handlerStrip, bodyStrip_regroup body]

theorem cleanupStrip_regroup : ∀ cleanup : Option (List Statement),
    cleanupStrip (cleanupRelabel r (cleanupRegroup cleanup)) =
      cleanupStrip (cleanupRelabel r cleanup)
  | none => rfl
  | some body => by
    simp only [cleanupRegroup, cleanupRelabel, cleanupStrip, bodyStrip_regroup body]

theorem Routine.strip_regroup : ∀ m : Routine, (m.regroup.relabel r).strip = (m.relabel r).strip
  | ⟨_, params, _, body, _⟩ => by
    simp only [Routine.regroup, Routine.relabel, Routine.strip, paramsStrip_regroup params,
      bodyStrip_regroup body]

theorem routinesStrip_regroup : ∀ ms : List Routine,
    routinesStrip (routinesRelabel r (routinesRegroup ms)) = routinesStrip (routinesRelabel r ms)
  | [] => rfl
  | m :: ms => by
    simp only [routinesRegroup, routinesRelabel, routinesStrip, Routine.strip_regroup m,
      routinesStrip_regroup ms]

theorem paramsStrip_regroup : ∀ params : List Parameter,
    paramsStrip (paramsRelabel r (paramsRegroup params)) = paramsStrip (paramsRelabel r params)
  | [] => rfl
  | ⟨_, _, none⟩ :: params => by
    simp only [paramsRegroup, paramsRelabel, paramsStrip, paramsStrip_regroup params]
  | ⟨_, _, some value⟩ :: params => by
    simp only [paramsRegroup, paramsRelabel, paramsStrip, Expr.strip_regroup value,
      paramsStrip_regroup params]

end

end

end TwoScript
