import TwoScript.Tree.Basic

/-!
# Conditions at every node

A `Check` is a condition on single nodes: expressions, patterns of arms and
statements. `Every` says that it holds at all nodes of a tree, those inside
templates, arms and routines included.
-/

namespace TwoScript

/-- A condition on the nodes of a tree. The names of routines and parameters are checked
with the statement they belong to. -/
structure Check where
  expr : Expr → Prop
  pattern : Expr → Prop
  statement : Statement → Prop

namespace Check

def and (k l : Check) : Check where
  expr e := k.expr e ∧ l.expr e
  pattern e := k.pattern e ∧ l.pattern e
  statement s := k.statement s ∧ l.statement s

/-- A condition on the expressions outside patterns only. -/
def ofExpr (p : Expr → Prop) : Check where
  expr := p
  pattern _ := True
  statement _ := True

end Check

mutual

def Expr.Every (k : Check) : Expr → Prop
  | .literal s value => k.expr (.literal s value)
  | .ident s name => k.expr (.ident s name)
  | .assign s op target value =>
    k.expr (.assign s op target value) ∧ target.Every k ∧ value.Every k
  | .binary s op left right =>
    k.expr (.binary s op left right) ∧ left.Every k ∧ right.Every k
  | .unary s op operand => k.expr (.unary s op operand) ∧ operand.Every k
  | .group s inner => k.expr (.group s inner) ∧ inner.Every k
  | .call s callee args => k.expr (.call s callee args) ∧ callee.Every k ∧ argsEvery k args
  | .member s object property => k.expr (.member s object property) ∧ object.Every k
  | .await s operand => k.expr (.await s operand) ∧ operand.Every k
  | .select s subject arms =>
    k.expr (.select s subject arms) ∧ subject.Every k ∧ armsEvery k arms
  | .template s parts => k.expr (.template s parts) ∧ partsEvery k parts

def argsEvery (k : Check) : List Expr → Prop
  | [] => True
  | e :: es => e.Every k ∧ argsEvery k es

def armsEvery (k : Check) : List Arm → Prop
  | [] => True
  | ⟨none, body⟩ :: arms => body.Every k ∧ armsEvery k arms
  | ⟨some pattern, body⟩ :: arms => k.pattern pattern ∧ body.Every k ∧ armsEvery k arms

def partsEvery (k : Check) : List Part → Prop
  | [] => True
  | .text _ :: parts => partsEvery k parts
  | .expr e :: parts => e.Every k ∧ partsEvery k parts

def Statement.Every (k : Check) : Statement → Prop
  | .function s routine => k.statement (.function s routine) ∧ routine.Every k
  | .classDecl s name methods =>
    k.statement (.classDecl s name methods) ∧ routinesEvery k methods
  | .declare s constant name type none => k.statement (.declare s constant name type none)
  | .declare s constant name type (some initial) =>
    k.statement (.declare s constant name type (some initial)) ∧ initial.Every k
  | .conditional s condition body none =>
    k.statement (.conditional s condition body none) ∧ condition.Every k ∧ bodyEvery k body
  | .conditional s condition body (some otherwise) =>
    k.statement (.conditional s condition body (some otherwise)) ∧ condition.Every k ∧
      bodyEvery k body ∧ otherwise.Every k
  | .attempt s body handler cleanup =>
    k.statement (.attempt s body handler cleanup) ∧ bodyEvery k body ∧
      handlerEvery k handler ∧ cleanupEvery k cleanup
  | .returning s none => k.statement (.returning s none)
  | .returning s (some value) => k.statement (.returning s (some value)) ∧ value.Every k
  | .block s body => k.statement (.block s body) ∧ bodyEvery k body
  | .expression s value => k.statement (.expression s value) ∧ value.Every k
  | .failed s => k.statement (.failed s)

def bodyEvery (k : Check) : List Statement → Prop
  | [] => True
  | s :: ss => s.Every k ∧ bodyEvery k ss

def handlerEvery (k : Check) : Option Handler → Prop
  | none => True
  | some ⟨_, body⟩ => bodyEvery k body

def cleanupEvery (k : Check) : Option (List Statement) → Prop
  | none => True
  | some body => bodyEvery k body

def Routine.Every (k : Check) : Routine → Prop
  | ⟨_, params, _, body, _⟩ => paramsEvery k params ∧ bodyEvery k body

def routinesEvery (k : Check) : List Routine → Prop
  | [] => True
  | r :: rs => r.Every k ∧ routinesEvery k rs

def paramsEvery (k : Check) : List Parameter → Prop
  | [] => True
  | ⟨_, _, none⟩ :: params => paramsEvery k params
  | ⟨_, _, some value⟩ :: params => value.Every k ∧ paramsEvery k params

end

/-! ## Weaker conditions -/

structure Check.Implies (k l : Check) : Prop where
  expr : ∀ e, k.expr e → l.expr e
  pattern : ∀ e, k.pattern e → l.pattern e
  statement : ∀ s, k.statement s → l.statement s

section

variable {k l : Check}

mutual

theorem Expr.Every.mono (weaker : k.Implies l) : ∀ e : Expr, e.Every k → e.Every l
  | .literal _ _, h => weaker.expr _ h
  | .ident _ _, h => weaker.expr _ h
  | .assign _ _ target value, h =>
    ⟨weaker.expr _ h.1, Expr.Every.mono weaker target h.2.1, Expr.Every.mono weaker value h.2.2⟩
  | .binary _ _ left right, h =>
    ⟨weaker.expr _ h.1, Expr.Every.mono weaker left h.2.1, Expr.Every.mono weaker right h.2.2⟩
  | .unary _ _ operand, h => ⟨weaker.expr _ h.1, Expr.Every.mono weaker operand h.2⟩
  | .group _ inner, h => ⟨weaker.expr _ h.1, Expr.Every.mono weaker inner h.2⟩
  | .call _ callee args, h =>
    ⟨weaker.expr _ h.1, Expr.Every.mono weaker callee h.2.1, argsEvery_mono weaker args h.2.2⟩
  | .member _ object _, h => ⟨weaker.expr _ h.1, Expr.Every.mono weaker object h.2⟩
  | .await _ operand, h => ⟨weaker.expr _ h.1, Expr.Every.mono weaker operand h.2⟩
  | .select _ subject arms, h =>
    ⟨weaker.expr _ h.1, Expr.Every.mono weaker subject h.2.1, armsEvery_mono weaker arms h.2.2⟩
  | .template _ parts, h => ⟨weaker.expr _ h.1, partsEvery_mono weaker parts h.2⟩

theorem argsEvery_mono (weaker : k.Implies l) :
    ∀ args : List Expr, argsEvery k args → argsEvery l args
  | [], _ => trivial
  | e :: es, h => ⟨Expr.Every.mono weaker e h.1, argsEvery_mono weaker es h.2⟩

theorem armsEvery_mono (weaker : k.Implies l) :
    ∀ arms : List Arm, armsEvery k arms → armsEvery l arms
  | [], _ => trivial
  | ⟨none, body⟩ :: arms, h => ⟨Statement.Every.mono weaker body h.1,
    armsEvery_mono weaker arms h.2⟩
  | ⟨some _, body⟩ :: arms, h =>
    ⟨weaker.pattern _ h.1, Statement.Every.mono weaker body h.2.1, armsEvery_mono weaker arms h.2.2⟩

theorem partsEvery_mono (weaker : k.Implies l) :
    ∀ parts : List Part, partsEvery k parts → partsEvery l parts
  | [], _ => trivial
  | .text _ :: parts, h => partsEvery_mono weaker parts h
  | .expr e :: parts, h => ⟨Expr.Every.mono weaker e h.1, partsEvery_mono weaker parts h.2⟩

theorem Statement.Every.mono (weaker : k.Implies l) : ∀ s : Statement, s.Every k → s.Every l
  | .function _ routine, h => ⟨weaker.statement _ h.1, Routine.Every.mono weaker routine h.2⟩
  | .classDecl _ _ methods, h => ⟨weaker.statement _ h.1, routinesEvery_mono weaker methods h.2⟩
  | .declare _ _ _ _ none, h => weaker.statement _ h
  | .declare _ _ _ _ (some initial), h =>
    ⟨weaker.statement _ h.1, Expr.Every.mono weaker initial h.2⟩
  | .conditional _ condition body none, h =>
    ⟨weaker.statement _ h.1, Expr.Every.mono weaker condition h.2.1,
      bodyEvery_mono weaker body h.2.2⟩
  | .conditional _ condition body (some otherwise), h =>
    ⟨weaker.statement _ h.1, Expr.Every.mono weaker condition h.2.1,
      bodyEvery_mono weaker body h.2.2.1,
      Statement.Every.mono weaker otherwise h.2.2.2⟩
  | .attempt _ body handler cleanup, h =>
    ⟨weaker.statement _ h.1, bodyEvery_mono weaker body h.2.1,
      handlerEvery_mono weaker handler h.2.2.1,
      cleanupEvery_mono weaker cleanup h.2.2.2⟩
  | .returning _ none, h => weaker.statement _ h
  | .returning _ (some value), h => ⟨weaker.statement _ h.1, Expr.Every.mono weaker value h.2⟩
  | .block _ body, h => ⟨weaker.statement _ h.1, bodyEvery_mono weaker body h.2⟩
  | .expression _ value, h => ⟨weaker.statement _ h.1, Expr.Every.mono weaker value h.2⟩
  | .failed _, h => weaker.statement _ h

theorem bodyEvery_mono (weaker : k.Implies l) :
    ∀ body : List Statement, bodyEvery k body → bodyEvery l body
  | [], _ => trivial
  | s :: ss, h => ⟨Statement.Every.mono weaker s h.1, bodyEvery_mono weaker ss h.2⟩

theorem handlerEvery_mono (weaker : k.Implies l) : ∀ handler : Option Handler,
    handlerEvery k handler → handlerEvery l handler
  | none, _ => trivial
  | some ⟨_, body⟩, h => bodyEvery_mono weaker body h

theorem cleanupEvery_mono (weaker : k.Implies l) : ∀ cleanup : Option (List Statement),
    cleanupEvery k cleanup → cleanupEvery l cleanup
  | none, _ => trivial
  | some body, h => bodyEvery_mono weaker body h

theorem Routine.Every.mono (weaker : k.Implies l) : ∀ r : Routine, r.Every k → r.Every l
  | ⟨_, params, _, body, _⟩, h => ⟨paramsEvery_mono weaker params h.1,
    bodyEvery_mono weaker body h.2⟩

theorem routinesEvery_mono (weaker : k.Implies l) :
    ∀ rs : List Routine, routinesEvery k rs → routinesEvery l rs
  | [], _ => trivial
  | r :: rs, h => ⟨Routine.Every.mono weaker r h.1, routinesEvery_mono weaker rs h.2⟩

theorem paramsEvery_mono (weaker : k.Implies l) : ∀ params : List Parameter,
    paramsEvery k params → paramsEvery l params
  | [], _ => trivial
  | ⟨_, _, none⟩ :: params, h => paramsEvery_mono weaker params h
  | ⟨_, _, some value⟩ :: params, h =>
    ⟨Expr.Every.mono weaker value h.1, paramsEvery_mono weaker params h.2⟩

end

end

/-! ## Two conditions at once -/

section

variable {k l : Check}

mutual

theorem Expr.Every.and : ∀ e : Expr, e.Every k → e.Every l → e.Every (k.and l)
  | .literal _ _, h, h' | .ident _ _, h, h' => ⟨h, h'⟩
  | .assign _ _ left right, h, h' | .binary _ _ left right, h, h' =>
    ⟨⟨h.1, h'.1⟩, Expr.Every.and left h.2.1 h'.2.1, Expr.Every.and right h.2.2 h'.2.2⟩
  | .unary _ _ operand, h, h' | .group _ operand, h, h' | .member _ operand _, h, h'
  | .await _ operand, h, h' => ⟨⟨h.1, h'.1⟩, Expr.Every.and operand h.2 h'.2⟩
  | .call _ callee args, h, h' =>
    ⟨⟨h.1, h'.1⟩, Expr.Every.and callee h.2.1 h'.2.1, argsEvery_and args h.2.2 h'.2.2⟩
  | .select _ subject arms, h, h' =>
    ⟨⟨h.1, h'.1⟩, Expr.Every.and subject h.2.1 h'.2.1, armsEvery_and arms h.2.2 h'.2.2⟩
  | .template _ parts, h, h' => ⟨⟨h.1, h'.1⟩, partsEvery_and parts h.2 h'.2⟩

theorem argsEvery_and : ∀ args : List Expr, argsEvery k args → argsEvery l args →
    argsEvery (k.and l) args
  | [], _, _ => trivial
  | e :: es, h, h' => ⟨Expr.Every.and e h.1 h'.1, argsEvery_and es h.2 h'.2⟩

theorem armsEvery_and : ∀ arms : List Arm, armsEvery k arms → armsEvery l arms →
    armsEvery (k.and l) arms
  | [], _, _ => trivial
  | ⟨none, body⟩ :: arms, h, h' => ⟨Statement.Every.and body h.1 h'.1, armsEvery_and arms h.2 h'.2⟩
  | ⟨some _, body⟩ :: arms, h, h' =>
    ⟨⟨h.1, h'.1⟩, Statement.Every.and body h.2.1 h'.2.1, armsEvery_and arms h.2.2 h'.2.2⟩

theorem partsEvery_and : ∀ parts : List Part, partsEvery k parts → partsEvery l parts →
    partsEvery (k.and l) parts
  | [], _, _ => trivial
  | .text _ :: parts, h, h' => partsEvery_and parts h h'
  | .expr e :: parts, h, h' => ⟨Expr.Every.and e h.1 h'.1, partsEvery_and parts h.2 h'.2⟩

theorem Statement.Every.and : ∀ s : Statement, s.Every k → s.Every l → s.Every (k.and l)
  | .function _ routine, h, h' => ⟨⟨h.1, h'.1⟩, Routine.Every.and routine h.2 h'.2⟩
  | .classDecl _ _ methods, h, h' => ⟨⟨h.1, h'.1⟩, routinesEvery_and methods h.2 h'.2⟩
  | .declare _ _ _ _ none, h, h' | .returning _ none, h, h' | .failed _, h, h' => ⟨h, h'⟩
  | .declare _ _ _ _ (some value), h, h' | .returning _ (some value), h, h'
  | .expression _ value, h, h' => ⟨⟨h.1, h'.1⟩, Expr.Every.and value h.2 h'.2⟩
  | .conditional _ condition body none, h, h' =>
    ⟨⟨h.1, h'.1⟩, Expr.Every.and condition h.2.1 h'.2.1, bodyEvery_and body h.2.2 h'.2.2⟩
  | .conditional _ condition body (some otherwise), h, h' =>
    ⟨⟨h.1, h'.1⟩, Expr.Every.and condition h.2.1 h'.2.1, bodyEvery_and body h.2.2.1 h'.2.2.1,
      Statement.Every.and otherwise h.2.2.2 h'.2.2.2⟩
  | .attempt _ body handler cleanup, h, h' =>
    ⟨⟨h.1, h'.1⟩, bodyEvery_and body h.2.1 h'.2.1, handlerEvery_and handler h.2.2.1 h'.2.2.1,
      cleanupEvery_and cleanup h.2.2.2 h'.2.2.2⟩
  | .block _ body, h, h' => ⟨⟨h.1, h'.1⟩, bodyEvery_and body h.2 h'.2⟩

theorem bodyEvery_and : ∀ body : List Statement, bodyEvery k body → bodyEvery l body →
    bodyEvery (k.and l) body
  | [], _, _ => trivial
  | s :: ss, h, h' => ⟨Statement.Every.and s h.1 h'.1, bodyEvery_and ss h.2 h'.2⟩

theorem handlerEvery_and : ∀ handler : Option Handler, handlerEvery k handler →
    handlerEvery l handler → handlerEvery (k.and l) handler
  | none, _, _ => trivial
  | some ⟨_, body⟩, h, h' => bodyEvery_and body h h'

theorem cleanupEvery_and : ∀ cleanup : Option (List Statement), cleanupEvery k cleanup →
    cleanupEvery l cleanup → cleanupEvery (k.and l) cleanup
  | none, _, _ => trivial
  | some body, h, h' => bodyEvery_and body h h'

theorem Routine.Every.and : ∀ r : Routine, r.Every k → r.Every l → r.Every (k.and l)
  | ⟨_, params, _, body, _⟩, h, h' => ⟨paramsEvery_and params h.1 h'.1, bodyEvery_and body h.2 h'.2⟩

theorem routinesEvery_and : ∀ rs : List Routine, routinesEvery k rs → routinesEvery l rs →
    routinesEvery (k.and l) rs
  | [], _, _ => trivial
  | r :: rs, h, h' => ⟨Routine.Every.and r h.1 h'.1, routinesEvery_and rs h.2 h'.2⟩

theorem paramsEvery_and : ∀ params : List Parameter, paramsEvery k params →
    paramsEvery l params → paramsEvery (k.and l) params
  | [], _, _ => trivial
  | ⟨_, _, none⟩ :: params, h, h' => paramsEvery_and params h h'
  | ⟨_, _, some value⟩ :: params, h, h' =>
    ⟨Expr.Every.and value h.1 h'.1, paramsEvery_and params h.2 h'.2⟩

end

end

/-! ## Lists -/

theorem argsEvery_iff {k : Check} {args : List Expr} :
    argsEvery k args ↔ ∀ e ∈ args, e.Every k := by
  induction args with
  | nil => simp [argsEvery]
  | cons e es ih => simp [argsEvery, ih]

theorem bodyEvery_iff {k : Check} {body : List Statement} :
    bodyEvery k body ↔ ∀ s ∈ body, s.Every k := by
  induction body with
  | nil => simp [bodyEvery]
  | cons s ss ih => simp [bodyEvery, ih]

theorem routinesEvery_iff {k : Check} {routines : List Routine} :
    routinesEvery k routines ↔ ∀ r ∈ routines, r.Every k := by
  induction routines with
  | nil => simp [routinesEvery]
  | cons r rs ih => simp [routinesEvery, ih]

theorem armsEvery_iff {k : Check} {arms : List Arm} :
    armsEvery k arms ↔
      ∀ a ∈ arms, (∀ p, a.pattern = some p → k.pattern p) ∧ a.body.Every k := by
  induction arms with
  | nil => simp [armsEvery]
  | cons a arms ih =>
      obtain ⟨_ | p, body⟩ := a <;> simp [armsEvery, ih, and_assoc]

theorem paramsEvery_iff {k : Check} {params : List Parameter} :
    paramsEvery k params ↔ ∀ p ∈ params, ∀ e, p.default = some e → e.Every k := by
  induction params with
  | nil => simp [paramsEvery]
  | cons p params ih =>
      obtain ⟨name, type, _ | value⟩ := p <;> simp [paramsEvery, ih]

theorem paramsEvery_cons {k : Check} {p : Parameter} {params : List Parameter} :
    paramsEvery k (p :: params) ↔ paramsEvery k [p] ∧ paramsEvery k params := by
  simp [paramsEvery_iff]

theorem partsEvery_iff {k : Check} {parts : List Part} :
    partsEvery k parts ↔ ∀ e, .expr e ∈ parts → e.Every k := by
  induction parts with
  | nil => simp [partsEvery]
  | cons p parts ih =>
      cases p with
      | text _ => simp [partsEvery, ih]
      | expr e =>
          simp only [partsEvery, ih, List.mem_cons, Part.expr.injEq, forall_eq_or_imp]

end TwoScript
