import TwoScript.Proofs.Parse.Yield
import TwoScript.Proofs.Tree.Every

/-!
# Nodes

A node is an expression or a statement anywhere in a tree. `children` lists the nodes
right below one in the order of the text, and `Below` is everything further down. A
condition that `Every` asks for at all nodes of a tree holds of each node below it.
-/

namespace TwoScript

namespace Statement

def isFailed : Statement → Bool
  | failed _ => true
  | _ => false

def isExpression : Statement → Bool
  | expression _ _ => true
  | _ => false

end Statement

inductive Node where
  | expr (e : Expr)
  | statement (s : Statement)

/-! ## Children -/

def Arm.nodes : Arm → List Node
  | ⟨none, body⟩ => [.statement body]
  | ⟨some pattern, body⟩ => [.expr pattern, .statement body]

def Part.nodes : Part → List Node
  | .text _ => []
  | .expr e => [.expr e]

/-- The nodes of a routine: default values, then its body. -/
def Routine.nodes (r : Routine) : List Node :=
  (r.params.filterMap Parameter.default).map .expr ++ r.body.map .statement

def Expr.children : Expr → List Node
  | .literal _ _ | .ident _ _ => []
  | .assign _ _ left right | .binary _ _ left right => [.expr left, .expr right]
  | .unary _ _ inner | .group _ inner | .member _ inner _ | .await _ inner => [.expr inner]
  | .call _ callee args => .expr callee :: args.map .expr
  | .select _ subject arms => .expr subject :: arms.flatMap Arm.nodes
  | .template _ parts => parts.flatMap Part.nodes

def Statement.children : Statement → List Node
  | .function _ routine => routine.nodes
  | .classDecl _ _ methods => methods.flatMap Routine.nodes
  | .declare _ _ _ _ value | .returning _ value => value.toList.map .expr
  | .conditional _ condition body otherwise =>
    .expr condition :: body.map .statement ++ otherwise.toList.map .statement
  | .attempt _ body handler cleanup =>
    body.map .statement ++ (handler.toList.flatMap Handler.body).map .statement
      ++ (cleanup.getD []).map .statement
  | .block _ body => body.map .statement
  | .expression _ value => [.expr value]
  | .failed _ => []

namespace Node

/-- The nodes right below a node, in the order of the text. -/
def children : Node → List Node
  | expr e => e.children
  | statement s => s.children

inductive Below (n : Node) : Node → Prop where
  | child {m : Node} : m ∈ n.children → Below n m
  | deeper {m k : Node} : Below n m → k ∈ m.children → Below n k

def isFailed : Node → Bool
  | expr _ => false
  | statement s => s.isFailed

/-- A placeholder has nothing below it. -/
theorem not_below_failed {span : Span} {n : Node} : ¬(statement (.failed span)).Below n := by
  intro below
  induction below with
  | child child => cases child
  | deeper _ _ ih => exact ih

end Node

/-! ## Conditions -/

namespace Check

/-- The condition at a single node. Whether an expression is a pattern is not to be seen
from the node. -/
def Holds (k : Check) : Node → Prop
  | .expr e => k.expr e ∨ k.pattern e
  | .statement s => k.statement s

def Bare (k : Check) : Prop :=
  ∀ e, k.pattern e → e.children = []

end Check

namespace Node

variable {k : Check}

/-- The condition holds at every node of a tree, which may be a pattern. -/
def Every (k : Check) : Node → Prop
  | expr e => e.Every k ∨ k.pattern e
  | statement s => s.Every k

theorem Every.holds {n : Node} (h : n.Every k) : k.Holds n := by
  cases n with
  | expr e =>
      rcases h with h | pattern
      · left
        cases e with
        | literal | ident => exact h
        | _ => exact h.1
      · exact .inr pattern
  | statement s =>
      cases s with
      | declare _ _ _ _ value | returning _ value =>
          cases value with
          | none => exact h
          | some e => exact h.1
      | conditional _ _ _ otherwise =>
          cases otherwise with
          | none => exact h.1
          | some s => exact h.1
      | failed => exact h
      | _ => exact h.1

/-! ## One step down -/

theorem every_exprs {es : List Expr} (h : ∀ e ∈ es, e.Every k) :
    ∀ n ∈ es.map expr, n.Every k := by
  intro n hn
  obtain ⟨e, he, rfl⟩ := List.mem_map.mp hn
  exact .inl (h e he)

theorem every_statements {body : List Statement} (h : bodyEvery k body) :
    ∀ n ∈ body.map statement, n.Every k := by
  intro n hn
  obtain ⟨s, hs, rfl⟩ := List.mem_map.mp hn
  exact bodyEvery_iff.mp h s hs

theorem every_routine {r : Routine} (h : r.Every k) : ∀ n ∈ r.nodes, n.Every k := by
  obtain ⟨name, params, returns, body, async⟩ := r
  obtain ⟨defaults, statements⟩ := h
  intro n hn
  rcases List.mem_append.mp hn with value | inside
  · refine every_exprs (fun e he => ?_) n value
    obtain ⟨p, hp, default⟩ := List.mem_filterMap.mp he
    exact paramsEvery_iff.mp defaults p hp e default
  · exact every_statements statements n inside

theorem every_arm {a : Arm} (pattern : ∀ p, a.pattern = some p → k.pattern p)
    (body : a.body.Every k) : ∀ n ∈ a.nodes, n.Every k := by
  obtain ⟨_ | p, s⟩ := a
  · simpa [Arm.nodes, Every] using body
  · simpa [Arm.nodes, Every] using ⟨.inr (pattern p rfl), body⟩

theorem every_child_expr {e : Expr} (h : e.Every k) : ∀ n ∈ e.children, n.Every k := by
  cases e with
  | literal | ident => simp [Expr.children]
  | assign | binary =>
      simpa [Expr.children, Every] using ⟨.inl h.2.1, .inl h.2.2⟩
  | unary | group | member | await =>
      simpa [Expr.children, Every] using .inl h.2
  | call s callee args =>
      refine List.forall_mem_cons.mpr ⟨.inl h.2.1, every_exprs (argsEvery_iff.mp h.2.2)⟩
  | select s subject arms =>
      refine List.forall_mem_cons.mpr ⟨.inl h.2.1, fun n hn => ?_⟩
      obtain ⟨a, ha, inside⟩ := List.mem_flatMap.mp hn
      obtain ⟨pattern, body⟩ := armsEvery_iff.mp h.2.2 a ha
      exact every_arm pattern body n inside
  | template s parts =>
      intro n hn
      obtain ⟨part, hp, inside⟩ := List.mem_flatMap.mp hn
      cases part with
      | text => cases inside
      | expr e =>
          obtain rfl := List.mem_singleton.mp inside
          exact .inl (partsEvery_iff.mp h.2 e hp)

theorem every_child_statement {s : Statement} (h : s.Every k) :
    ∀ n ∈ s.children, n.Every k := by
  cases s with
  | function _ r => exact every_routine h.2
  | classDecl _ _ methods =>
      intro n hn
      obtain ⟨r, hr, inside⟩ := List.mem_flatMap.mp hn
      exact every_routine (routinesEvery_iff.mp h.2 r hr) n inside
  | declare _ _ _ _ value | returning _ value =>
      cases value with
      | none => simp [Statement.children]
      | some e => simpa [Statement.children, Every] using .inl h.2
  | conditional _ condition body otherwise =>
      cases otherwise with
      | none =>
          rw [Statement.children, Option.toList_none, List.map_nil, List.append_nil]
          exact List.forall_mem_cons.mpr ⟨.inl h.2.1, every_statements h.2.2⟩
      | some t =>
          refine List.forall_mem_cons.mpr ⟨.inl h.2.1, fun n hn => ?_⟩
          rcases List.mem_append.mp hn with inside | last
          · exact every_statements h.2.2.1 n inside
          · obtain rfl := List.mem_singleton.mp last
            exact h.2.2.2
  | attempt _ body handler cleanup =>
      obtain ⟨_, first, caught, last⟩ := h
      intro n hn
      rcases List.mem_append.mp hn with hn | inside
      · rcases List.mem_append.mp hn with inside | inside
        · exact every_statements first n inside
        · cases handler with
          | none => cases inside
          | some handler =>
              obtain ⟨binding, body⟩ := handler
              rw [Option.toList_some, List.flatMap_singleton] at inside
              exact every_statements caught n inside
      · cases cleanup with
        | none => cases inside
        | some cleanup => exact every_statements last n inside
  | block _ body => exact every_statements h.2
  | expression _ value => simpa [Statement.children, Every] using .inl h.2
  | failed => simp [Statement.children]

/-- What holds at every node of a tree holds at every node of its children. -/
theorem Every.child (bare : k.Bare) {n m : Node} (h : n.Every k) (child : m ∈ n.children) :
    m.Every k := by
  cases n with
  | expr e =>
      rcases h with h | pattern
      · exact every_child_expr h m child
      · rw [children, bare e pattern] at child
        cases child
  | statement s => exact every_child_statement h m child

/-- What holds at every node of a tree holds at each node below its root. -/
theorem Every.below (bare : k.Bare) {n m : Node} (h : n.Every k) (below : n.Below m) :
    m.Every k := by
  induction below with
  | child child => exact h.child bare child
  | deeper _ child ih => exact ih.child bare child

end Node

/-! ## Trees without placeholders -/

namespace Expr

def isLiteral : Expr → Bool
  | literal _ _ => true
  | _ => false

def ArmsFormed : Expr → Prop
  | select _ _ arms => ∀ a ∈ arms, a.body.isBlock = true ∨ a.body.isExpression = true
  | _ => True

end Expr

/-- The condition on the nodes of a tree that was read from tokens of any kind. -/
def unbroken : Check where
  expr := Expr.ArmsFormed
  pattern e := e.isLiteral = true
  statement s := s.isFailed = false

theorem unbroken_bare : unbroken.Bare := by
  intro e pattern
  cases e with
  | literal => rfl
  | _ => cases pattern

/-- No placeholder is left in such a tree. -/
theorem Node.Every.isFailed_eq {n : Node} (h : n.Every unbroken) : n.isFailed = false := by
  cases n with
  | expr e => rfl
  | statement s => exact h.holds

end TwoScript
