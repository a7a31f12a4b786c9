import TwoScript.Tree.Basic

/-!
# Heights of trees

The height of a tree is the number of nodes on its longest branch, statements and
expressions alike. Routines, parameters, arms and parts are no nodes of their own.
-/

namespace TwoScript

mutual

def Expr.height : Expr → Nat
  | .literal _ _ | .ident _ _ => 1
  | .assign _ _ target value => 1 + max target.height value.height
  | .binary _ _ left right => 1 + max left.height right.height
  | .unary _ _ operand => 1 + operand.height
  | .group _ inner => 1 + inner.height
  | .call _ callee args => 1 + max callee.height (argsHeight args)
  | .member _ object _ => 1 + object.height
  | .await _ operand => 1 + operand.height
  | .select _ subject arms => 1 + max subject.height (armsHeight arms)
  | .template _ parts => 1 + partsHeight parts

def argsHeight : List Expr → Nat
  | [] => 0
  | e :: es => max e.height (argsHeight es)

def armsHeight : List Arm → Nat
  | [] => 0
  | ⟨none, body⟩ :: arms => max body.height (armsHeight arms)
  | ⟨some pattern, body⟩ :: arms => max (max pattern.height body.height) (armsHeight arms)

def partsHeight : List Part → Nat
  | [] => 0
  | .text _ :: parts => partsHeight parts
  | .expr e :: parts => max e.height (partsHeight parts)

def Statement.height : Statement → Nat
  | .function _ routine => 1 + routine.height
  | .classDecl _ _ methods => 1 + routinesHeight methods
  | .declare _ _ _ _ none => 1
  | .declare _ _ _ _ (some initial) => 1 + initial.height
  | .conditional _ condition body none => 1 + max condition.height (bodyHeight body)
  | .conditional _ condition body (some otherwise) =>
    1 + max (max condition.height (bodyHeight body)) otherwise.height
  | .attempt _ body handler cleanup =>
    1 + max (max (bodyHeight body) (handlerHeight handler)) (cleanupHeight cleanup)
  | .returning _ none => 1
  | .returning _ (some value) => 1 + value.height
  | .block _ body => 1 + bodyHeight body
  | .expression _ value => 1 + value.height
  | .failed _ => 1

def bodyHeight : List Statement → Nat
  | [] => 0
  | s :: ss => max s.height (bodyHeight ss)

def handlerHeight : Option Handler → Nat
  | none => 0
  | some ⟨_, body⟩ => bodyHeight body

def cleanupHeight : Option (List Statement) → Nat
  | none => 0
  | some body => bodyHeight body

def Routine.height : Routine → Nat
  | ⟨_, params, _, body, _⟩ => max (paramsHeight params) (bodyHeight body)

def routinesHeight : List Routine → Nat
  | [] => 0
  | r :: rs => max r.height (routinesHeight rs)

def paramsHeight : List Parameter → Nat
  | [] => 0
  | ⟨_, _, none⟩ :: params => paramsHeight params
  | ⟨_, _, some value⟩ :: params => max value.height (paramsHeight params)

end

/-! ## Bounds -/

section

variable {n : Nat}

attribute [local simp] Nat.max_le Expr.height argsHeight armsHeight partsHeight Statement.height
  bodyHeight routinesHeight paramsHeight

/-- A maximum along a list stays within a bound exactly if every member does. -/
theorem maximum_le_iff {α : Type} {maximum : List α → Nat} {Bounded : α → Prop}
    (nil : maximum [] = 0)
    (cons : ∀ a l, maximum (a :: l) ≤ n ↔ Bounded a ∧ maximum l ≤ n) (l : List α) :
    maximum l ≤ n ↔ ∀ a ∈ l, Bounded a := by
  induction l with
  | nil => simp [nil]
  | cons a l ih => rw [cons, ih, List.forall_mem_cons]

theorem argsHeight_le_iff {args : List Expr} :
    argsHeight args ≤ n ↔ ∀ e ∈ args, e.height ≤ n :=
  maximum_le_iff rfl (fun e es => by simp) args

theorem armsHeight_le_iff {arms : List Arm} :
    armsHeight arms ≤ n ↔
      ∀ a ∈ arms, (∀ p, a.pattern = some p → p.height ≤ n) ∧ a.body.height ≤ n := by
  refine maximum_le_iff rfl (fun a arms => ?_) arms
  obtain ⟨_ | pattern, body⟩ := a <;> simp [and_assoc]

theorem partsHeight_le_iff {parts : List Part} :
    partsHeight parts ≤ n ↔ ∀ part ∈ parts, ∀ e, part = .expr e → e.height ≤ n := by
  refine maximum_le_iff rfl (fun part parts => ?_) parts
  cases part <;> simp

theorem bodyHeight_le_iff {body : List Statement} :
    bodyHeight body ≤ n ↔ ∀ s ∈ body, s.height ≤ n :=
  maximum_le_iff rfl (fun s ss => by simp) body

theorem routinesHeight_le_iff {routines : List Routine} :
    routinesHeight routines ≤ n ↔ ∀ r ∈ routines, r.height ≤ n :=
  maximum_le_iff rfl (fun r rs => by simp) routines

theorem paramsHeight_le_iff {params : List Parameter} :
    paramsHeight params ≤ n ↔ ∀ p ∈ params, ∀ e, p.default = some e → e.height ≤ n := by
  refine maximum_le_iff rfl (fun p params => ?_) params
  obtain ⟨name, type, _ | value⟩ := p <;> simp

theorem Expr.height_ungrouped_le (e : Expr) : e.ungrouped.height ≤ e.height := by
  cases e <;> simp [Expr.ungrouped]

end

end TwoScript
