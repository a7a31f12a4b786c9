import TwoScript.Proofs.Code.Twin

/-!
# Code does not depend on labels

Spans and the names of types leave no trace in generated code: a relabelled tree meets
the same nodes in the same order and has the same code on every level.
-/

namespace TwoScript

section

variable {r : Labels}

mutual

theorem Expr.twin_relabel : ∀ e : Expr, e.Twin r (e.relabel r)
  | .literal _ value => .literal value
  | .ident _ _ => .ident rfl
  | .assign _ _ target value => .assign target.twin_relabel value.twin_relabel
  | .binary _ _ left right => by
    have first := left.twin_relabel
    have second := right.twin_relabel
    exact .binary (first.operand (first.parens _ _)) (second.operand (second.parens _ _))
  | .unary _ _ operand => by
    have inner := operand.twin_relabel
    exact .unary (inner.operand (inner.parens _ _))
  | .group _ inner => .group inner.twin_relabel
  | .call _ callee args => by
    have first := callee.twin_relabel
    exact .call (first.operand first.awaited) (argsTwin_relabel args)
  | .member _ object _ => by
    have inner := object.twin_relabel
    exact .member (inner.operand (by rw [inner.awaited, inner.number]))
  | .await _ operand => by
    have inner := operand.twin_relabel
    exact .await (inner.operand (inner.parens _ _))
  | .select _ subject arms => .select subject.twin_relabel (armsTwin_relabel arms)
  | .template _ parts => .template (partsTwin_relabel parts)

theorem argsTwin_relabel : ∀ args : List Expr,
    List.Forall₂ (Expr.Twin r) args (argsRelabel r args)
  | [] => .nil
  | e :: es => .cons e.twin_relabel (argsTwin_relabel es)

theorem armsTwin_relabel : ∀ arms : List Arm,
    List.Forall₂ (Arm.Twin r) arms (armsRelabel r arms)
  | [] => .nil
  | ⟨none, body⟩ :: arms => .cons (.default body.twin_relabel) (armsTwin_relabel arms)
  | ⟨some pattern, body⟩ :: arms =>
    .cons (.value pattern.twin_relabel body.twin_relabel) (armsTwin_relabel arms)

theorem partsTwin_relabel : ∀ parts : List Part,
    List.Forall₂ (Part.Twin r) parts (partsRelabel r parts)
  | [] => .nil
  | .text text :: parts => .cons (.text text) (partsTwin_relabel parts)
  | .expr e :: parts => .cons (.expr e.twin_relabel) (partsTwin_relabel parts)

theorem Statement.twin_relabel : ∀ s : Statement, s.Twin r (s.relabel r)
  | .function _ routine => .function (routine.twin_relabel true)
  | .classDecl _ _ methods => .classDecl rfl (methodsTwin_relabel methods)
  | .declare _ _ _ _ none => .declare_none rfl
  | .declare _ _ _ _ (some initial) => .declare_some rfl initial.twin_relabel
  | .conditional _ condition body none =>
    .conditional_none condition.twin_relabel (bodyTwin_relabel body)
  | .conditional _ condition body (some otherwise) =>
    .conditional_some condition.twin_relabel (bodyTwin_relabel body) otherwise.twin_relabel
  | .attempt _ body handler cleanup =>
    .attempt (bodyTwin_relabel body) (handlerTwin_relabel handler) (cleanupTwin_relabel cleanup)
  | .returning _ none => .returning_none
  | .returning _ (some value) => .returning_some value.twin_relabel
  | .block _ body => .block (bodyTwin_relabel body)
  | .expression _ value => .expression value.twin_relabel
  | .failed _ => .failed

theorem bodyTwin_relabel : ∀ body : List Statement,
    List.Forall₂ (Statement.Twin r) body (bodyRelabel r body)
  | [] => .nil
  | s :: ss => .cons s.twin_relabel (bodyTwin_relabel ss)

theorem handlerTwin_relabel : ∀ handler : Option Handler,
    HandlerTwin r handler (handlerRelabel r handler)
  | none => .none
  | some ⟨none, body⟩ => .bare (bodyTwin_relabel body)
  | some ⟨some _, body⟩ => .bound rfl (bodyTwin_relabel body)

theorem cleanupTwin_relabel : ∀ cleanup : Option (List Statement),
    CleanupTwin r cleanup (cleanupRelabel r cleanup)
  | none => .none
  | some body => .some (bodyTwin_relabel body)

theorem Routine.twin_relabel (keyword : Bool) : ∀ m : Routine, m.Twin r keyword (m.relabel r)
  | ⟨_, params, _, body, _⟩ =>
    ⟨by cases keyword <;> rfl, paramsTwin_relabel params, bodyTwin_relabel body, rfl⟩

theorem methodsTwin_relabel : ∀ methods : List Routine,
    List.Forall₂ (Routine.Twin r false) methods (routinesRelabel r methods)
  | [] => .nil
  | m :: ms => .cons (m.twin_relabel false) (methodsTwin_relabel ms)

theorem paramsTwin_relabel : ∀ params : List Parameter,
    List.Forall₂ (Parameter.Twin r) params (paramsRelabel r params)
  | [] => .nil
  | ⟨_, _, none⟩ :: params => .cons (.plain rfl) (paramsTwin_relabel params)
  | ⟨_, _, some value⟩ :: params =>
    .cons (.default rfl value.twin_relabel) (paramsTwin_relabel params)

end

theorem bodyVisits_relabel (body : List Statement) :
    bodyVisits (bodyRelabel r body) = (bodyVisits body).map (Visit.relabel r) :=
  (bodyTwin (bodyTwin_relabel body)).1

theorem programCode_relabel (n : Nat) (statements : List Statement) :
    programCode n (bodyRelabel r statements) = programCode n statements :=
  programCode_twin (bodyTwin_relabel statements) n

end

end TwoScript
