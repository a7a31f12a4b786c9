import TwoScript.Proofs.Code.Twin
import TwoScript.Proofs.Token.Lexed

/-!
# Code does not depend on renaming

`rename` replaces the names that a tree binds or refers to, and neither properties nor the
names of methods. Code is written under binding names alone: names that are bound alike
can take each other's place, and binding every name beforehand changes nothing.
-/

namespace TwoScript

mutual

/-- The expression with other names. -/
def Expr.rename (f : String → String) : Expr → Expr
  | .literal s value => .literal s value
  | .ident s name => .ident s (f name)
  | .assign s op target value => .assign s op (target.rename f) (value.rename f)
  | .binary s op left right => .binary s op (left.rename f) (right.rename f)
  | .unary s op operand => .unary s op (operand.rename f)
  | .group s inner => .group s (inner.rename f)
  | .call s callee args => .call s (callee.rename f) (argsRename f args)
  | .member s object property => .member s (object.rename f) property
  | .await s operand => .await s (operand.rename f)
  | .select s subject arms => .select s (subject.rename f) (armsRename f arms)
  | .template s parts => .template s (partsRename f parts)

def argsRename (f : String → String) : List Expr → List Expr
  | [] => []
  | e :: es => e.rename f :: argsRename f es

def armsRename (f : String → String) : List Arm → List Arm
  | [] => []
  | ⟨none, body⟩ :: arms => ⟨none, body.rename f⟩ :: armsRename f arms
  | ⟨some pattern, body⟩ :: arms => ⟨some (pattern.rename f), body.rename f⟩ :: armsRename f arms

def partsRename (f : String → String) : List Part → List Part
  | [] => []
  | .text text :: parts => .text text :: partsRename f parts
  | .expr e :: parts => .expr (e.rename f) :: partsRename f parts

def Statement.rename (f : String → String) : Statement → Statement
  | .function s ⟨name, params, returns, body, async⟩ =>
    .function s ⟨f name, paramsRename f params, returns, bodyRename f body, async⟩
  | .classDecl s name methods => .classDecl s (f name) (methodsRename f methods)
  | .declare s constant name type none => .declare s constant (f name) type none
  | .declare s constant name type (some initial) =>
    .declare s constant (f name) type (some (initial.rename f))
  | .conditional s condition body none =>
    .conditional s (condition.rename f) (bodyRename f body) none
  | .conditional s condition body (some otherwise) =>
    .conditional s (condition.rename f) (bodyRename f body) (some (otherwise.rename f))
  | .attempt s body handler cleanup =>
    .attempt s (bodyRename f body) (handlerRename f handler) (cleanupRename f cleanup)
  | .returning s none => .returning s none
  | .returning s (some value) => .returning s (some (value.rename f))
  | .block s body => .block s (bodyRename f body)
  | .expression s value => .expression s (value.rename f)
  | .failed s => .failed s

def bodyRename (f : String → String) : List Statement → List Statement
  | [] => []
  | s :: ss => s.rename f :: bodyRename f ss

def handlerRename (f : String → String) : Option Handler → Option Handler
  | none => none
  | some ⟨binding, body⟩ => some ⟨binding.map f, bodyRename f body⟩

def cleanupRename (f : String → String) : Option (List Statement) → Option (List Statement)
  | none => none
  | some body => some (bodyRename f body)

/-- Methods with other names inside. Their own names are properties. -/
def methodsRename (f : String → String) : List Routine → List Routine
  | [] => []
  | ⟨name, params, returns, body, async⟩ :: methods =>
    ⟨name, paramsRename f params, returns, bodyRename f body, async⟩ :: methodsRename f methods

def paramsRename (f : String → String) : List Parameter → List Parameter
  | [] => []
  | ⟨name, type, none⟩ :: params => ⟨f name, type, none⟩ :: paramsRename f params
  | ⟨name, type, some value⟩ :: params =>
    ⟨f name, type, some (value.rename f)⟩ :: paramsRename f params

end

/-- The names that the function gives are bound as the ones it is given. -/
def BoundAlike (f : String → String) : Prop :=
  ∀ name, bindingName (f name) = bindingName name

section

variable {f : String → String}

mutual

theorem Expr.twin_rename (alike : BoundAlike f) : ∀ e : Expr, e.Twin .same (e.rename f)
  | .literal _ value => .literal value
  | .ident _ name => .ident (alike name)
  | .assign _ _ target value => .assign (target.twin_rename alike) (value.twin_rename alike)
  | .binary _ _ left right => by
    have first := left.twin_rename alike
    have second := right.twin_rename alike
    exact .binary (first.operand (first.parens _ _)) (second.operand (second.parens _ _))
  | .unary _ _ operand => by
    have inner := operand.twin_rename alike
    exact .unary (inner.operand (inner.parens _ _))
  | .group _ inner => .group (inner.twin_rename alike)
  | .call _ callee args => by
    have first := callee.twin_rename alike
    exact .call (first.operand first.awaited) (argsTwin_rename alike args)
  | .member _ object _ => by
    have inner := object.twin_rename alike
    exact .member (inner.operand (by rw [inner.awaited, inner.number]))
  | .await _ operand => by
    have inner := operand.twin_rename alike
    exact .await (inner.operand (inner.parens _ _))
  | .select _ subject arms => .select (subject.twin_rename alike) (armsTwin_rename alike arms)
  | .template _ parts => .template (partsTwin_rename alike parts)

theorem argsTwin_rename (alike : BoundAlike f) : ∀ args : List Expr,
    List.Forall₂ (Expr.Twin .same) args (argsRename f args)
  | [] => .nil
  | e :: es => .cons (e.twin_rename alike) (argsTwin_rename alike es)

theorem armsTwin_rename (alike : BoundAlike f) : ∀ arms : List Arm,
    List.Forall₂ (Arm.Twin .same) arms (armsRename f arms)
  | [] => .nil
  | ⟨none, body⟩ :: arms => .cons (.default (body.twin_rename alike)) (armsTwin_rename alike arms)
  | ⟨some pattern, body⟩ :: arms =>
    .cons (.value (pattern.twin_rename alike) (body.twin_rename alike))
      (armsTwin_rename alike arms)

theorem partsTwin_rename (alike : BoundAlike f) : ∀ parts : List Part,
    List.Forall₂ (Part.Twin .same) parts (partsRename f parts)
  | [] => .nil
  | .text text :: parts => .cons (.text text) (partsTwin_rename alike parts)
  | .expr e :: parts => .cons (.expr (e.twin_rename alike)) (partsTwin_rename alike parts)

theorem Statement.twin_rename (alike : BoundAlike f) : ∀ s : Statement, s.Twin .same (s.rename f)
  | .function _ ⟨name, params, _, body, _⟩ =>
    .function ⟨alike name, paramsTwin_rename alike params, bodyTwin_rename alike body, rfl⟩
  | .classDecl _ name methods => .classDecl (alike name) (methodsTwin_rename alike methods)
  | .declare _ _ name _ none => .declare_none (alike name)
  | .declare _ _ name _ (some initial) => .declare_some (alike name) (initial.twin_rename alike)
  | .conditional _ condition body none =>
    .conditional_none (condition.twin_rename alike) (bodyTwin_rename alike body)
  | .conditional _ condition body (some otherwise) =>
    .conditional_some (condition.twin_rename alike) (bodyTwin_rename alike body)
      (otherwise.twin_rename alike)
  | .attempt _ body handler cleanup =>
    .attempt (bodyTwin_rename alike body) (handlerTwin_rename alike handler)
      (cleanupTwin_rename alike cleanup)
  | .returning _ none => .returning_none
  | .returning _ (some value) => .returning_some (value.twin_rename alike)
  | .block _ body => .block (bodyTwin_rename alike body)
  | .expression _ value => .expression (value.twin_rename alike)
  | .failed _ => .failed

theorem bodyTwin_rename (alike : BoundAlike f) : ∀ body : List Statement,
    List.Forall₂ (Statement.Twin .same) body (bodyRename f body)
  | [] => .nil
  | s :: ss => .cons (s.twin_rename alike) (bodyTwin_rename alike ss)

theorem handlerTwin_rename (alike : BoundAlike f) : ∀ handler : Option Handler,
    HandlerTwin .same handler (handlerRename f handler)
  | none => .none
  | some ⟨none, body⟩ => .bare (bodyTwin_rename alike body)
  | some ⟨some name, body⟩ => .bound (alike name) (bodyTwin_rename alike body)

theorem cleanupTwin_rename (alike : BoundAlike f) : ∀ cleanup : Option (List Statement),
    CleanupTwin .same cleanup (cleanupRename f cleanup)
  | none => .none
  | some body => .some (bodyTwin_rename alike body)

theorem methodsTwin_rename (alike : BoundAlike f) : ∀ methods : List Routine,
    List.Forall₂ (Routine.Twin .same false) methods (methodsRename f methods)
  | [] => .nil
  | ⟨_, params, _, body, _⟩ :: methods =>
    .cons ⟨rfl, paramsTwin_rename alike params, bodyTwin_rename alike body, rfl⟩
      (methodsTwin_rename alike methods)

theorem paramsTwin_rename (alike : BoundAlike f) : ∀ params : List Parameter,
    List.Forall₂ (Parameter.Twin .same) params (paramsRename f params)
  | [] => .nil
  | ⟨name, _, none⟩ :: params => .cons (.plain (alike name)) (paramsTwin_rename alike params)
  | ⟨name, _, some value⟩ :: params =>
    .cons (.default (alike name) (value.twin_rename alike)) (paramsTwin_rename alike params)

end

/-- Names that are bound alike give the same code, or the same refusal. -/
theorem generate_rename (alike : BoundAlike f) (options : Options) (statements : List Statement) :
    generate options (bodyRename f statements) = generate options statements := by
  have twins := bodyTwin_rename alike statements
  rw [generate, (bodyTwin twins).1, map_relabel_same, programCode_twin twins, generate]

end

/-! ## Binding names -/

theorem dollar_append_not_mem (name : String) : "$" ++ name ∉ reservedWords := by
  intro reserved
  have plain : ∀ word ∈ reservedWords, word.toList.head? ≠ some '$' := by decide
  exact plain _ reserved (by simp)

theorem boundAlike_bindingName : BoundAlike bindingName := by
  intro name
  by_cases reserved : name ∈ reservedWords
  · have again := dollar_append_not_mem name
    simp [bindingName, reserved, again]
  · simp [bindingName, reserved]

theorem bindingName_not_reserved (name : String) : bindingName name ∉ reservedWords := by
  by_cases reserved : name ∈ reservedWords
  · simpa [bindingName, reserved] using dollar_append_not_mem name
  · simp [bindingName, reserved]

/-- A word holds no dollar sign. -/
theorem dollar_not_mem_of_isWord {s : String} (h : isWord s = true) : '$' ∉ s.toList := by
  intro dollar
  have part := isWordPart_of_mem h dollar
  exact absurd part (by decide)

/-- Different words are bound under different names. -/
theorem bindingName_inj {a b : String} (left : isWord a = true) (right : isWord b = true)
    (h : bindingName a = bindingName b) : a = b := by
  have unmarked : ∀ {s t : String}, isWord t = true → "$" ++ s ≠ t := by
    rintro s _ word rfl
    exact dollar_not_mem_of_isWord word (by simp)
  by_cases first : a ∈ reservedWords <;> by_cases second : b ∈ reservedWords <;>
    simp only [bindingName, List.contains_iff_mem, first, second, if_true, if_false] at h
  · exact String.toList_inj.mp (by simpa using congrArg String.toList h)
  · exact absurd h (unmarked right)
  · exact absurd h.symm (unmarked left)
  · exact h

/-- No name is bound as a temporary. -/
theorem bindingName_ne_temporary {name : String} (h : isWord name = true) (n : Nat) :
    bindingName name ≠ temporary n := by
  have unlike : ∀ word ∈ reservedWords, word.toList.head? ≠ some 'm' := by decide
  intro same
  by_cases reserved : name ∈ reservedWords
  · simp only [bindingName, List.contains_iff_mem, reserved, if_true, temporary] at same
    have chars := congrArg String.toList same
    rw [String.toList_append, String.toList_append] at chars
    have behind : name.toList = "match_".toList ++ (toString n).toList := (List.cons.inj chars).2
    exact unlike name reserved (by rw [behind]; rfl)
  · simp only [bindingName, List.contains_iff_mem, reserved, if_false, temporary] at same
    exact dollar_not_mem_of_isWord h (by simp [same])

end TwoScript
