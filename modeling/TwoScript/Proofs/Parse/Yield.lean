import TwoScript.Proofs.Token.Segment
import TwoScript.Proofs.Token.Shape
import TwoScript.Tree.Basic

/-!
# The tokens of a tree

`Yields` relates a tree to the shapes it is written with, from left to right: every
node stands for its own tokens around those of its parts. Operators and keywords may
have any of their spellings, which is why this is a relation. A selection is taken as
a stretch of tokens from its keyword to its closing brace, whatever lies between.
-/

namespace TwoScript

namespace Expr

def isGroup : Expr → Bool
  | group _ _ => true
  | _ => false

end Expr

namespace Statement

def isConditional : Statement → Bool
  | conditional _ _ _ _ => true
  | _ => false

def isBlock : Statement → Bool
  | block _ _ => true
  | _ => false

end Statement

namespace Shape

def isLiteral (t : Shape) : Bool :=
  t.kind = .number || t.kind = .string || t.kind = .trueWord || t.kind = .falseWord
    || t.kind = .nullWord

theorem isLiteral_iff {t : Shape} : t.isLiteral = true ↔
    t.kind = .number ∨ t.kind = .string ∨ t.kind = .trueWord ∨ t.kind = .falseWord ∨
      t.kind = .nullWord := by
  simp [isLiteral, or_assoc]

def isProperty (t : Shape) : Bool :=
  t.kind = .identifier || (keyword? t.text).isSome

theorem isProperty_iff {t : Shape} : t.isProperty = true ↔
    t.kind = .identifier ∨ (keyword? t.text).isSome = true := by
  simp [isProperty]

/-- The characters between the backticks of a template, as far as its value has kept
them. -/
def body (t : Shape) : List Char :=
  match t.literal with
  | some (.string body) => body.toList
  | _ => []

end Shape

def typeYields (mark : Kind) : Option String → List Shape → Prop
  | none, ts => ts = []
  | some name, ts => ∃ m t, ts = [m, t] ∧ m.kind = mark ∧
      (t.kind = .identifier ∨ t.kind = .nullWord) ∧ t.text = name

def asyncYields : Bool → List Shape → Prop
  | false, ts => ts = []
  | true, ts => ∃ t, ts = [t] ∧ t.kind = .asyncWord

def caughtYields : Option String → List Shape → Prop
  | none, ts => ts = []
  | some name, ts => ∃ l t r, ts = [l, t, r] ∧ l.kind = .leftParen ∧
      t.kind = .identifier ∧ t.text = name ∧ r.kind = .rightParen

def Enclosed (first last : Kind) (inside : List Shape → Prop) (ts : List Shape) : Prop :=
  ∃ l ms r, ts = l :: (ms ++ [r]) ∧ l.kind = first ∧ inside ms ∧ r.kind = last

mutual

/-- The shapes that an expression is written with. -/
def Expr.Yields : Expr → List Shape → Prop
  | .literal _ value, ts => ∃ t, ts = [t] ∧ t.isLiteral = true ∧ t.literal = some value
  | .ident _ name, ts => ∃ t, ts = [t] ∧ t.kind = .identifier ∧ t.text = name
  | .assign _ op target value, ts => ∃ ls t rs, ts = ls ++ t :: rs ∧ target.Yields ls ∧
      AssignOp.ofKind? t.kind = some op ∧ value.Yields rs
  | .binary _ op left right, ts => ∃ ls t rs, ts = ls ++ t :: rs ∧ left.Yields ls ∧
      BinaryOp.ofKind? t.kind = some op ∧ right.Yields rs
  | .unary _ op operand, ts => ∃ t rs, ts = t :: rs ∧ UnaryOp.ofKind? t.kind = some op ∧
      operand.Yields rs
  | .group _ inner, ts => Enclosed .leftParen .rightParen inner.Yields ts
  | .call _ callee args, ts => ∃ ls ms, ts = ls ++ ms ∧ callee.Yields ls ∧
      Enclosed .leftParen .rightParen (argsYield args) ms
  | .member _ object property, ts => ∃ ls d t, ts = ls ++ [d, t] ∧ object.Yields ls ∧
      d.kind = .dot ∧ t.isProperty = true ∧ t.text = property
  | .await _ operand, ts => ∃ t rs, ts = t :: rs ∧ t.kind = .awaitWord ∧ operand.Yields rs
  | .select _ _ _, ts => Enclosed .matchWord .rightBrace (fun _ => True) ts
  | .template _ parts, ts => ∃ t, ts = [t] ∧ t.kind = .template ∧
      partsYield parts (templateSegments .first t.body)

def argsYield : List Expr → List Shape → Prop
  | [], ts => ts = []
  | [e], ts => e.Yields ts
  | e :: f :: es, ts => ∃ ls t rs, ts = ls ++ t :: rs ∧ e.Yields ls ∧ t.kind = .comma ∧
      argsYield (f :: es) rs

/-- The segments of a template. A source holds nothing but the tokens of its
expression. -/
def partsYield : List Part → List Segment → Prop
  | [], segments => segments = []
  | .text text :: parts, segments => ∃ cs rest, segments = .text cs :: rest ∧
      text = String.ofList cs ∧ partsYield parts rest
  | .expr e :: parts, segments => ∃ place cs rest, segments = .source place cs :: rest ∧
      e.Yields (shapes cs) ∧ partsYield parts rest

/-- The shapes that a statement is written with. Parentheses around a condition leave no
trace in the tree. -/
def Statement.Yields : Statement → List Shape → Prop
  | .function _ routine, ts => ∃ as k rs, ts = as ++ k :: rs ∧ asyncYields routine.async as ∧
      k.kind = .functionWord ∧ routine.Yields rs
  | .classDecl _ name methods, ts => ∃ k t ms, ts = k :: t :: ms ∧ k.kind = .classWord ∧
      t.kind = .identifier ∧ t.text = name ∧
      Enclosed .leftBrace .rightBrace (methodsYield methods) ms
  | .declare _ constant name type initial, ts => ∃ k t us vs r,
      ts = k :: t :: (us ++ (vs ++ [r])) ∧
      (k.kind = .constWord ∧ constant = true ∧ initial.isSome = true ∨
        k.kind = .letWord ∧ constant = false) ∧
      t.kind = .identifier ∧ t.text = name ∧ typeYields .colon type us ∧
      valueYields initial vs ∧ r.kind = .semicolon
  | .conditional _ condition body otherwise, ts => ∃ k cs bs os, ts = k :: (cs ++ (bs ++ os)) ∧
      k.kind = .ifWord ∧
      (Enclosed .leftParen .rightParen condition.Yields cs ∨
        condition.isGroup = false ∧ condition.Yields cs) ∧
      Enclosed .leftBrace .rightBrace (bodyYields body) bs ∧ otherwiseYields otherwise os
  | .attempt _ body handler cleanup, ts => ∃ k bs hs fs, ts = k :: (bs ++ (hs ++ fs)) ∧
      k.kind = .tryWord ∧ Enclosed .leftBrace .rightBrace (bodyYields body) bs ∧
      handlerYields handler hs ∧ cleanupYields cleanup fs ∧
      ¬(handler.isNone = true ∧ cleanup.isNone = true)
  | .returning _ none, ts => ∃ k r, ts = [k, r] ∧ k.kind = .returnWord ∧ r.kind = .semicolon
  | .returning _ (some value), ts => Enclosed .returnWord .semicolon value.Yields ts
  | .block _ body, ts => Enclosed .leftBrace .rightBrace (bodyYields body) ts
  | .expression _ value, ts => ∃ vs r, ts = vs ++ [r] ∧ value.Yields vs ∧ r.kind = .semicolon
  | .failed _, _ => False

def bodyYields : List Statement → List Shape → Prop
  | [], ts => ts = []
  | s :: ss, ts => ∃ ls rs, ts = ls ++ rs ∧ s.Yields ls ∧ bodyYields ss rs

def valueYields : Option Expr → List Shape → Prop
  | none, ts => ts = []
  | some value, ts => ∃ t vs, ts = t :: vs ∧ t.kind = .equal ∧ value.Yields vs

def otherwiseYields : Option Statement → List Shape → Prop
  | none, ts => ts = []
  | some s, ts => ∃ k os, ts = k :: os ∧ k.kind = .elseWord ∧
      (s.isConditional = true ∨ s.isBlock = true) ∧ s.Yields os

def handlerYields : Option Handler → List Shape → Prop
  | none, ts => ts = []
  | some ⟨binding, body⟩, ts => ∃ k ns bs, ts = k :: (ns ++ bs) ∧ k.kind = .catchWord ∧
      caughtYields binding ns ∧ Enclosed .leftBrace .rightBrace (bodyYields body) bs

def cleanupYields : Option (List Statement) → List Shape → Prop
  | none, ts => ts = []
  | some body, ts => ∃ k bs, ts = k :: bs ∧ k.kind = .finallyWord ∧
      Enclosed .leftBrace .rightBrace (bodyYields body) bs

def Routine.Yields : Routine → List Shape → Prop
  | ⟨name, params, returns, body, _⟩, ts => ∃ t ps rs bs, ts = t :: (ps ++ (rs ++ bs)) ∧
      t.kind = .identifier ∧ t.text = name ∧
      Enclosed .leftParen .rightParen (paramsYield params) ps ∧ typeYields .arrow returns rs ∧
      Enclosed .leftBrace .rightBrace (bodyYields body) bs

/-- The shapes of methods. Each may have the keyword of functions. -/
def methodsYield : List Routine → List Shape → Prop
  | [], ts => ts = []
  | r :: rs, ts => ∃ as ks ms us, ts = as ++ (ks ++ (ms ++ us)) ∧ asyncYields r.async as ∧
      (ks = [] ∨ ∃ k, ks = [k] ∧ k.kind = .functionWord) ∧ r.Yields ms ∧ methodsYield rs us

def paramsYield : List Parameter → List Shape → Prop
  | [], ts => ts = []
  | [p], ts => p.Yields ts
  | p :: q :: ps, ts => ∃ ls t rs, ts = ls ++ t :: rs ∧ p.Yields ls ∧ t.kind = .comma ∧
      paramsYield (q :: ps) rs

/-- The shapes of a parameter. Its default value is no assignment. -/
def Parameter.Yields : Parameter → List Shape → Prop
  | ⟨name, type, default⟩, ts => ∃ t us vs, ts = t :: (us ++ vs) ∧ t.kind = .identifier ∧
      t.text = name ∧ typeYields .colon type us ∧ valueYields default vs

end

/-- The places of the segments say nothing about the parts. -/
theorem partsYield_bare {parts : List Part} {segments : List Segment} :
    partsYield parts (segments.map Segment.bare) ↔ partsYield parts segments := by
  induction parts generalizing segments with
  | nil => simp [partsYield]
  | cons part parts ih =>
      cases segments with
      | nil => cases part <;> simp [partsYield]
      | cons segment segments =>
          cases part <;> cases segment <;>
            simp [partsYield, Segment.bare, ih, and_assoc]

end TwoScript
