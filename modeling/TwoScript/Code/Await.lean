import TwoScript.Tree.Basic

/-!
# Waiting

Whether evaluating an expression or running a statement may wait for a value.
Functions and classes inside it are not run by it and do not count.
-/

namespace TwoScript

mutual

def Expr.awaits : Expr → Bool
  | .literal _ _ | .ident _ _ => false
  | .assign _ _ target value => target.awaits || value.awaits
  | .binary _ _ left right => left.awaits || right.awaits
  | .unary _ _ operand => operand.awaits
  | .group _ inner => inner.awaits
  | .call _ callee args => callee.awaits || argsAwait args
  | .member _ object _ => object.awaits
  | .await _ _ => true
  | .select _ subject arms => subject.awaits || armsAwait arms
  | .template _ parts => partsAwait parts

def argsAwait : List Expr → Bool
  | [] => false
  | e :: es => e.awaits || argsAwait es

def armsAwait : List Arm → Bool
  | [] => false
  | ⟨none, body⟩ :: arms => body.awaits || armsAwait arms
  | ⟨some pattern, body⟩ :: arms => body.awaits || pattern.awaits || armsAwait arms

def partsAwait : List Part → Bool
  | [] => false
  | .text _ :: parts => partsAwait parts
  | .expr e :: parts => e.awaits || partsAwait parts

def Statement.awaits : Statement → Bool
  | .function _ _ | .classDecl _ _ _ | .failed _ => false
  | .declare _ _ _ _ none => false
  | .declare _ _ _ _ (some initial) => initial.awaits
  | .conditional _ condition body none => condition.awaits || bodyAwaits body
  | .conditional _ condition body (some otherwise) =>
    condition.awaits || bodyAwaits body || otherwise.awaits
  | .attempt _ body handler cleanup =>
    bodyAwaits body || handlerAwaits handler || cleanupAwaits cleanup
  | .returning _ none => false
  | .returning _ (some value) => value.awaits
  | .block _ body => bodyAwaits body
  | .expression _ value => value.awaits

def bodyAwaits : List Statement → Bool
  | [] => false
  | s :: ss => s.awaits || bodyAwaits ss

def handlerAwaits : Option Handler → Bool
  | none => false
  | some ⟨_, body⟩ => bodyAwaits body

def cleanupAwaits : Option (List Statement) → Bool
  | none => false
  | some body => bodyAwaits body

end

end TwoScript
