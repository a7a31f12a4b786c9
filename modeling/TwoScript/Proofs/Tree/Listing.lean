import TwoScript.Tree.Sexpr
import TwoScript.Proofs.Text.Item

/-!
# Trees as items

The listing of a tree is what its item is written as: `Statement.toList_sexpr`. Every list of
the listing begins with a word or an operator, those of parameters and arms aside.
-/

namespace TwoScript

/-! ## Items of trees -/

def Literal.item : Literal → Item
  | .number x => .word x.text
  | .string s => .text s
  | .boolean true => .word "true"
  | .boolean false => .word "false"
  | .null => .word "null"

def returnsItems : Option String → List Item
  | none => []
  | some type => [.mark "->", .word type]

mutual

def Expr.item : Expr → Item
  | .literal _ value => value.item
  | .ident _ name => .word name
  | .assign _ op target value => .list [.mark op.symbol, target.item, value.item]
  | .binary _ op left right => .list [.mark op.symbol, left.item, right.item]
  | .unary _ op operand => .list [.mark op.symbol, operand.item]
  | .group _ inner => .list [.word "group", inner.item]
  | .call _ callee args => .list (.word "call" :: callee.item :: argsItems args)
  | .member _ object property => .list [.mark ".", object.item, .word property]
  | .await _ operand => .list [.word "await", operand.item]
  | .select _ subject arms => .list (.word "match" :: subject.item :: armsItems arms)
  | .template _ parts => .list (.word "template" :: partsItems parts)

def argsItems : List Expr → List Item
  | [] => []
  | e :: es => e.item :: argsItems es

def armsItems : List Arm → List Item
  | [] => []
  | ⟨none, body⟩ :: arms => .list [.word "default", body.item] :: armsItems arms
  | ⟨some pattern, body⟩ :: arms => .list [pattern.item, body.item] :: armsItems arms

def partsItems : List Part → List Item
  | [] => []
  | .text text :: parts => .text text :: partsItems parts
  | .expr e :: parts => e.item :: partsItems parts

def Statement.item : Statement → Item
  | .function _ routine => routine.item
  | .classDecl _ name methods => .list (.word "class" :: .word name :: routinesItems methods)
  | .declare _ constant name type initial =>
    .list (.word (if constant then "const" else "let") :: .word (name ++ typeSuffix type)
      :: valueItems initial)
  | .conditional _ condition body otherwise =>
    .list (.word "if" :: condition.item :: .list (.word "then" :: bodyItems body)
      :: otherwiseItems otherwise)
  | .attempt _ body handler cleanup =>
    .list (.word "try" :: .list (.word "block" :: bodyItems body)
      :: (handlerItems handler ++ cleanupItems cleanup))
  | .returning _ value => .list (.word "return" :: valueItems value)
  | .block _ body => .list (.word "block" :: bodyItems body)
  | .expression _ value => value.item
  | .failed _ => .list [.word "error"]

def valueItems : Option Expr → List Item
  | none => []
  | some value => [value.item]

def otherwiseItems : Option Statement → List Item
  | none => []
  | some statement => [.list [.word "else", statement.item]]

def handlerItems : Option Handler → List Item
  | none => []
  | some ⟨none, body⟩ => [.list (.word "catch" :: bodyItems body)]
  | some ⟨some name, body⟩ => [.list (.word "catch" :: .word name :: bodyItems body)]

def cleanupItems : Option (List Statement) → List Item
  | none => []
  | some body => [.list (.word "finally" :: bodyItems body)]

def bodyItems : List Statement → List Item
  | [] => []
  | s :: ss => s.item :: bodyItems ss

def Routine.item : Routine → Item
  | ⟨name, params, returns, body, async⟩ =>
    .list ((if async then [.word "async"] else []) ++ .word "function" :: .word name
      :: .list (paramsItems params)
      :: (returnsItems returns ++ bodyItems body))

def routinesItems : List Routine → List Item
  | [] => []
  | r :: rs => r.item :: routinesItems rs

def Parameter.item : Parameter → Item
  | ⟨name, type, none⟩ => .word (name ++ typeSuffix type)
  | ⟨name, type, some value⟩ => .pair (name ++ typeSuffix type) value.item

def paramsItems : List Parameter → List Item
  | [] => []
  | p :: ps => p.item :: paramsItems ps

end

/-! ## Listings are written items -/

theorem tailChars_append (is js : List Item) :
    tailChars (is ++ js) = tailChars is ++ tailChars js := by
  induction is with
  | nil => rfl
  | cons i is ih => simp [tailChars, ih]

theorem Literal.toList_sexpr (value : Literal) : value.sexpr.toList = value.item.chars := by
  cases value with
  | boolean b => cases b <;> rfl
  | _ => rfl

mutual

theorem Expr.toList_sexpr : ∀ e : Expr, e.sexpr.toList = e.item.chars
  | .literal _ value => value.toList_sexpr
  | .ident _ _ => rfl
  | .assign _ _ a b | .binary _ _ a b => by
    simp [Expr.sexpr, Expr.item, Item.chars, tailChars, Expr.toList_sexpr a, Expr.toList_sexpr b]
  | .unary _ _ a | .group _ a | .member _ a _ | .await _ a => by
    simp [Expr.sexpr, Expr.item, Item.chars, tailChars, Expr.toList_sexpr a]
  | .call _ callee args => by
    simp [Expr.sexpr, Expr.item, Item.chars, tailChars, Expr.toList_sexpr callee,
      toList_argsSexpr args]
  | .select _ subject arms => by
    simp [Expr.sexpr, Expr.item, Item.chars, tailChars, Expr.toList_sexpr subject,
      toList_armsSexpr arms]
  | .template _ parts => by
    simp [Expr.sexpr, Expr.item, Item.chars, toList_partsSexpr parts]

theorem toList_argsSexpr : ∀ args : List Expr, (argsSexpr args).toList = tailChars (argsItems args)
  | [] => rfl
  | e :: es => by
    simp [argsSexpr, argsItems, tailChars, Expr.toList_sexpr e, toList_argsSexpr es]

theorem toList_armsSexpr : ∀ arms : List Arm, (armsSexpr arms).toList = tailChars (armsItems arms)
  | [] => rfl
  | ⟨none, body⟩ :: arms => by
    simp [armsSexpr, armsItems, Item.chars, tailChars, Statement.toList_sexpr body,
      toList_armsSexpr arms]
  | ⟨some pattern, body⟩ :: arms => by
    simp [armsSexpr, armsItems, Item.chars, tailChars, Expr.toList_sexpr pattern,
      Statement.toList_sexpr body, toList_armsSexpr arms]

theorem toList_partsSexpr : ∀ parts : List Part,
    (partsSexpr parts).toList = tailChars (partsItems parts)
  | [] => rfl
  | .text text :: parts => by
    simp [partsSexpr, partsItems, Item.chars, tailChars, toList_partsSexpr parts]
  | .expr e :: parts => by
    simp [partsSexpr, partsItems, tailChars, Expr.toList_sexpr e, toList_partsSexpr parts]

theorem Statement.toList_sexpr : ∀ s : Statement, s.sexpr.toList = s.item.chars
  | .function _ routine => Routine.toList_sexpr routine
  | .classDecl _ _ methods => by
    simp [Statement.sexpr, Statement.item, Item.chars, tailChars, toList_routinesSexpr methods]
  | .declare _ constant _ _ initial => by
    cases constant <;>
      simp [Statement.sexpr, Statement.item, Item.chars, tailChars, toList_initialSexpr initial]
  | .conditional _ condition body otherwise => by
    simp [Statement.sexpr, Statement.item, Item.chars, tailChars, Expr.toList_sexpr condition,
      toList_bodySexpr body, toList_otherwiseSexpr otherwise]
  | .attempt _ body handler cleanup => by
    simp [Statement.sexpr, Statement.item, Item.chars, tailChars, tailChars_append,
      toList_bodySexpr body, toList_handlerSexpr handler, toList_cleanupSexpr cleanup]
  | .returning _ value => by
    simp [Statement.sexpr, Statement.item, Item.chars, toList_initialSexpr value]
  | .block _ body => by
    simp [Statement.sexpr, Statement.item, Item.chars, toList_bodySexpr body]
  | .expression _ value => Expr.toList_sexpr value
  | .failed _ => by simp [Statement.sexpr, Statement.item, Item.chars, tailChars]

theorem toList_initialSexpr : ∀ value : Option Expr,
    (initialSexpr value).toList = tailChars (valueItems value)
  | none => rfl
  | some value => by simp [initialSexpr, valueItems, tailChars, Expr.toList_sexpr value]

theorem toList_otherwiseSexpr : ∀ otherwise : Option Statement,
    (otherwiseSexpr otherwise).toList = tailChars (otherwiseItems otherwise)
  | none => rfl
  | some statement => by
    simp [otherwiseSexpr, otherwiseItems, Item.chars, tailChars, Statement.toList_sexpr statement]

theorem toList_handlerSexpr : ∀ handler : Option Handler,
    (handlerSexpr handler).toList = tailChars (handlerItems handler)
  | none => rfl
  | some ⟨none, body⟩ => by
    simp [handlerSexpr, handlerItems, Item.chars, tailChars, toList_bodySexpr body]
  | some ⟨some name, body⟩ => by
    simp [handlerSexpr, handlerItems, Item.chars, tailChars, toList_bodySexpr body]

theorem toList_cleanupSexpr : ∀ cleanup : Option (List Statement),
    (cleanupSexpr cleanup).toList = tailChars (cleanupItems cleanup)
  | none => rfl
  | some body => by
    simp [cleanupSexpr, cleanupItems, Item.chars, tailChars, toList_bodySexpr body]

theorem toList_bodySexpr : ∀ body : List Statement,
    (bodySexpr body).toList = tailChars (bodyItems body)
  | [] => rfl
  | s :: ss => by
    simp [bodySexpr, bodyItems, tailChars, Statement.toList_sexpr s, toList_bodySexpr ss]

theorem Routine.toList_sexpr : ∀ r : Routine, r.sexpr.toList = r.item.chars
  | ⟨name, params, returns, body, async⟩ => by
    have inside := toList_paramsSexpr params
    simp only [Routine.sexpr, Routine.item, String.toList_append, toList_bodySexpr body]
    cases async <;> cases returns <;>
      simp [returnsItems, Item.chars, tailChars, inside]

theorem toList_routinesSexpr : ∀ rs : List Routine,
    (routinesSexpr rs).toList = tailChars (routinesItems rs)
  | [] => rfl
  | r :: rs => by
    simp [routinesSexpr, routinesItems, tailChars, Routine.toList_sexpr r, toList_routinesSexpr rs]

theorem Parameter.toList_sexpr : ∀ p : Parameter, p.sexpr.toList = p.item.chars
  | ⟨_, _, none⟩ => rfl
  | ⟨_, _, some value⟩ => by
    simp [Parameter.sexpr, Parameter.item, Item.chars, Expr.toList_sexpr value]

theorem toList_paramsSexpr : ∀ params : List Parameter,
    (Item.list (paramsItems params)).chars = '(' :: ((paramsSexpr params).toList ++ [')'])
  | [] => rfl
  | [p] => by
    simp [paramsSexpr, paramsItems, Item.chars, tailChars, Parameter.toList_sexpr p]
  | p :: q :: ps => by
    have rest := toList_paramsSexpr (q :: ps)
    simp only [paramsItems, Item.chars, List.cons.injEq, true_and] at rest
    simp [paramsSexpr, paramsItems, Item.chars, tailChars, Parameter.toList_sexpr p, rest]

end

end TwoScript
