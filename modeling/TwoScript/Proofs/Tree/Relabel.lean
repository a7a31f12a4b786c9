import TwoScript.Parse.Statement

/-!
# Trees with other spans

`relabel` replaces the spans and the names of types in a tree and keeps everything
else. Moving a tree to another place in the text and forgetting where it came from
are both relabellings.
-/

namespace TwoScript

/-- What becomes of spans and of the names of types. -/
structure Labels where
  span : Span → Span
  type : String → String

namespace Labels

def same : Labels := ⟨id, id⟩

/-- The text is put behind `bytes` bytes and `lines` lines. -/
def shift (bytes lines : Nat) : Labels := ⟨Span.shift bytes lines, id⟩

def bare : Labels := ⟨fun _ => default, id⟩

end Labels

mutual

def Expr.relabel (r : Labels) : Expr → Expr
  | .literal s value => .literal (r.span s) value
  | .ident s name => .ident (r.span s) name
  | .assign s op target value => .assign (r.span s) op (target.relabel r) (value.relabel r)
  | .binary s op left right => .binary (r.span s) op (left.relabel r) (right.relabel r)
  | .unary s op operand => .unary (r.span s) op (operand.relabel r)
  | .group s inner => .group (r.span s) (inner.relabel r)
  | .call s callee args => .call (r.span s) (callee.relabel r) (argsRelabel r args)
  | .member s object property => .member (r.span s) (object.relabel r) property
  | .await s operand => .await (r.span s) (operand.relabel r)
  | .select s subject arms => .select (r.span s) (subject.relabel r) (armsRelabel r arms)
  | .template s parts => .template (r.span s) (partsRelabel r parts)

def argsRelabel (r : Labels) : List Expr → List Expr
  | [] => []
  | e :: es => e.relabel r :: argsRelabel r es

def armsRelabel (r : Labels) : List Arm → List Arm
  | [] => []
  | ⟨none, body⟩ :: arms => ⟨none, body.relabel r⟩ :: armsRelabel r arms
  | ⟨some pattern, body⟩ :: arms =>
    ⟨some (pattern.relabel r), body.relabel r⟩ :: armsRelabel r arms

def partsRelabel (r : Labels) : List Part → List Part
  | [] => []
  | .text text :: parts => .text text :: partsRelabel r parts
  | .expr e :: parts => .expr (e.relabel r) :: partsRelabel r parts

def Statement.relabel (r : Labels) : Statement → Statement
  | .function s routine => .function (r.span s) (routine.relabel r)
  | .classDecl s name methods => .classDecl (r.span s) name (routinesRelabel r methods)
  | .declare s constant name type none =>
    .declare (r.span s) constant name (type.map r.type) none
  | .declare s constant name type (some initial) =>
    .declare (r.span s) constant name (type.map r.type) (some (initial.relabel r))
  | .conditional s condition body none =>
    .conditional (r.span s) (condition.relabel r) (bodyRelabel r body) none
  | .conditional s condition body (some otherwise) =>
    .conditional (r.span s) (condition.relabel r) (bodyRelabel r body)
      (some (otherwise.relabel r))
  | .attempt s body handler cleanup =>
    .attempt (r.span s) (bodyRelabel r body) (handlerRelabel r handler) (cleanupRelabel r cleanup)
  | .returning s none => .returning (r.span s) none
  | .returning s (some value) => .returning (r.span s) (some (value.relabel r))
  | .block s body => .block (r.span s) (bodyRelabel r body)
  | .expression s value => .expression (r.span s) (value.relabel r)
  | .failed s => .failed (r.span s)

def bodyRelabel (r : Labels) : List Statement → List Statement
  | [] => []
  | s :: ss => s.relabel r :: bodyRelabel r ss

def handlerRelabel (r : Labels) : Option Handler → Option Handler
  | none => none
  | some ⟨binding, body⟩ => some ⟨binding, bodyRelabel r body⟩

def cleanupRelabel (r : Labels) : Option (List Statement) → Option (List Statement)
  | none => none
  | some body => some (bodyRelabel r body)

def Routine.relabel (r : Labels) : Routine → Routine
  | ⟨name, params, returns, body, async⟩ =>
    ⟨name, paramsRelabel r params, returns.map r.type, bodyRelabel r body, async⟩

def routinesRelabel (r : Labels) : List Routine → List Routine
  | [] => []
  | m :: ms => m.relabel r :: routinesRelabel r ms

def paramsRelabel (r : Labels) : List Parameter → List Parameter
  | [] => []
  | ⟨name, type, none⟩ :: params => ⟨name, type.map r.type, none⟩ :: paramsRelabel r params
  | ⟨name, type, some value⟩ :: params =>
    ⟨name, type.map r.type, some (value.relabel r)⟩ :: paramsRelabel r params

end

/-! ## Parts of a relabelled tree -/

def Arm.relabel (r : Labels) (a : Arm) : Arm :=
  ⟨a.pattern.map (Expr.relabel r), a.body.relabel r⟩

def Parameter.relabel (r : Labels) (p : Parameter) : Parameter :=
  ⟨p.name, p.type.map r.type, p.default.map (Expr.relabel r)⟩

def Handler.relabel (r : Labels) (h : Handler) : Handler :=
  ⟨h.binding, bodyRelabel r h.body⟩

def Part.relabel (r : Labels) : Part → Part
  | text s => text s
  | expr e => expr (e.relabel r)

/-- The error with another span, and another text where it quotes one. -/
def ParseError.relabel (span : Span → Span) (text : String → String) : ParseError → ParseError
  | unexpected expected found s => unexpected expected (text found) (span s)
  | endOfFile expected s => endOfFile expected (span s)
  | noLiteral t s => noLiteral (text t) (span s)
  | cannotStart t s => cannotStart (text t) (span s)
  | negatedNonNumber s => negatedNonNumber (span s)
  | assignmentTarget s => assignmentTarget (span s)
  | lexical ⟨fault, t, s⟩ => lexical ⟨fault, text t, span s⟩
  | tooDeep s => tooDeep (span s)
  | interpolation cause s => interpolation (cause.relabel span text) (span s)

section

variable {r : Labels}

theorem argsRelabel_eq_map (args : List Expr) : argsRelabel r args = args.map (Expr.relabel r) := by
  induction args with
  | nil => rfl
  | cons e es ih => rw [argsRelabel, ih, List.map_cons]

theorem armsRelabel_eq_map (arms : List Arm) : armsRelabel r arms = arms.map (Arm.relabel r) := by
  induction arms with
  | nil => rfl
  | cons a arms ih =>
      obtain ⟨_ | p, body⟩ := a <;> rw [armsRelabel, ih, List.map_cons] <;> rfl

theorem partsRelabel_eq_map (parts : List Part) :
    partsRelabel r parts = parts.map (Part.relabel r) := by
  induction parts with
  | nil => rfl
  | cons p parts ih => cases p <;> rw [partsRelabel, ih, List.map_cons] <;> rfl

theorem bodyRelabel_eq_map (body : List Statement) :
    bodyRelabel r body = body.map (Statement.relabel r) := by
  induction body with
  | nil => rfl
  | cons s ss ih => rw [bodyRelabel, ih, List.map_cons]

theorem routinesRelabel_eq_map (routines : List Routine) :
    routinesRelabel r routines = routines.map (Routine.relabel r) := by
  induction routines with
  | nil => rfl
  | cons m ms ih => rw [routinesRelabel, ih, List.map_cons]

theorem paramsRelabel_eq_map (params : List Parameter) :
    paramsRelabel r params = params.map (Parameter.relabel r) := by
  induction params with
  | nil => rfl
  | cons p params ih =>
      obtain ⟨name, type, _ | value⟩ := p <;> rw [paramsRelabel, ih, List.map_cons] <;> rfl

theorem handlerRelabel_eq_map (handler : Option Handler) :
    handlerRelabel r handler = handler.map (Handler.relabel r) := by
  rcases handler with _ | ⟨binding, body⟩ <;> rfl

theorem cleanupRelabel_eq_map (cleanup : Option (List Statement)) :
    cleanupRelabel r cleanup = cleanup.map (bodyRelabel r) := by
  cases cleanup <;> rfl

theorem Statement.relabel_declare (s : Span) (constant : Bool) (name : String)
    (type : Option String) (initial : Option Expr) :
    (declare s constant name type initial).relabel r =
      declare (r.span s) constant name (type.map r.type) (initial.map (Expr.relabel r)) := by
  cases initial <;> rfl

theorem Statement.relabel_conditional (s : Span) (condition : Expr) (body : List Statement)
    (otherwise : Option Statement) :
    (conditional s condition body otherwise).relabel r =
      conditional (r.span s) (condition.relabel r) (bodyRelabel r body)
        (otherwise.map (Statement.relabel r)) := by
  cases otherwise <;> rfl

theorem Statement.relabel_returning (s : Span) (value : Option Expr) :
    (returning s value).relabel r = returning (r.span s) (value.map (Expr.relabel r)) := by
  cases value <;> rfl

@[simp] theorem Expr.span_relabel (e : Expr) : (e.relabel r).span = r.span e.span := by
  cases e <;> rfl

@[simp] theorem Expr.isAssignable_relabel (e : Expr) :
    (e.relabel r).isAssignable = e.isAssignable := by
  cases e <;> rfl

@[simp] theorem Expr.ungrouped_relabel (e : Expr) :
    (e.relabel r).ungrouped = e.ungrouped.relabel r := by
  cases e <;> rfl

@[simp] theorem endsItself_relabel (e : Expr) :
    Grammar.endsItself (e.relabel r) = Grammar.endsItself e := by
  cases e <;> rfl

end

/-! ## Relabelling with what is there -/

mutual

theorem Expr.relabel_same : ∀ e : Expr, e.relabel .same = e
  | .literal _ _ | .ident _ _ => rfl
  | .assign _ _ a b | .binary _ _ a b => by
    rw [Expr.relabel, Expr.relabel_same a, Expr.relabel_same b]
    rfl
  | .unary _ _ a | .group _ a | .member _ a _ | .await _ a => by
    rw [Expr.relabel, Expr.relabel_same a]
    rfl
  | .call _ callee args => by
    rw [Expr.relabel, Expr.relabel_same callee, argsRelabel_same args]
    rfl
  | .select _ subject arms => by
    rw [Expr.relabel, Expr.relabel_same subject, armsRelabel_same arms]
    rfl
  | .template _ parts => by
    rw [Expr.relabel, partsRelabel_same parts]
    rfl

theorem argsRelabel_same : ∀ args : List Expr, argsRelabel .same args = args
  | [] => rfl
  | e :: es => by rw [argsRelabel, Expr.relabel_same e, argsRelabel_same es]

theorem armsRelabel_same : ∀ arms : List Arm, armsRelabel .same arms = arms
  | [] => rfl
  | ⟨none, body⟩ :: arms => by
    rw [armsRelabel, Statement.relabel_same body, armsRelabel_same arms]
  | ⟨some pattern, body⟩ :: arms => by
    rw [armsRelabel, Expr.relabel_same pattern, Statement.relabel_same body,
      armsRelabel_same arms]

theorem partsRelabel_same : ∀ parts : List Part, partsRelabel .same parts = parts
  | [] => rfl
  | .text _ :: parts => by rw [partsRelabel, partsRelabel_same parts]
  | .expr e :: parts => by rw [partsRelabel, Expr.relabel_same e, partsRelabel_same parts]

theorem Statement.relabel_same : ∀ s : Statement, s.relabel .same = s
  | .function _ routine => by
    rw [Statement.relabel, Routine.relabel_same routine]
    rfl
  | .classDecl _ _ methods => by
    rw [Statement.relabel, routinesRelabel_same methods]
    rfl
  | .declare _ _ _ type none => by
    rw [Statement.relabel, Labels.same, Option.map_id]
    rfl
  | .declare _ _ _ type (some initial) => by
    rw [Statement.relabel, Expr.relabel_same initial, Labels.same, Option.map_id]
    rfl
  | .conditional _ condition body none => by
    rw [Statement.relabel, Expr.relabel_same condition, bodyRelabel_same body]
    rfl
  | .conditional _ condition body (some otherwise) => by
    rw [Statement.relabel, Expr.relabel_same condition, bodyRelabel_same body,
      Statement.relabel_same otherwise]
    rfl
  | .attempt _ body handler cleanup => by
    rw [Statement.relabel, bodyRelabel_same body, handlerRelabel_same handler,
      cleanupRelabel_same cleanup]
    rfl
  | .returning _ none => rfl
  | .returning _ (some value) => by
    rw [Statement.relabel, Expr.relabel_same value]
    rfl
  | .block _ body => by
    rw [Statement.relabel, bodyRelabel_same body]
    rfl
  | .expression _ value => by
    rw [Statement.relabel, Expr.relabel_same value]
    rfl
  | .failed _ => rfl

theorem bodyRelabel_same : ∀ body : List Statement, bodyRelabel .same body = body
  | [] => rfl
  | s :: ss => by rw [bodyRelabel, Statement.relabel_same s, bodyRelabel_same ss]

theorem handlerRelabel_same : ∀ handler : Option Handler, handlerRelabel .same handler = handler
  | none => rfl
  | some ⟨_, body⟩ => by rw [handlerRelabel, bodyRelabel_same body]

theorem cleanupRelabel_same : ∀ cleanup : Option (List Statement),
    cleanupRelabel .same cleanup = cleanup
  | none => rfl
  | some body => by rw [cleanupRelabel, bodyRelabel_same body]

theorem Routine.relabel_same : ∀ m : Routine, m.relabel .same = m
  | ⟨_, params, returns, body, _⟩ => by
    rw [Routine.relabel, paramsRelabel_same params, bodyRelabel_same body, Labels.same,
      Option.map_id]
    rfl

theorem routinesRelabel_same : ∀ ms : List Routine, routinesRelabel .same ms = ms
  | [] => rfl
  | m :: ms => by rw [routinesRelabel, Routine.relabel_same m, routinesRelabel_same ms]

theorem paramsRelabel_same : ∀ params : List Parameter, paramsRelabel .same params = params
  | [] => rfl
  | ⟨_, type, none⟩ :: params => by
    rw [paramsRelabel, paramsRelabel_same params, Labels.same, Option.map_id]
    rfl
  | ⟨_, type, some value⟩ :: params => by
    rw [paramsRelabel, paramsRelabel_same params, Expr.relabel_same value, Labels.same,
      Option.map_id]
    rfl

end

/-! ## Heights -/

section

variable (r : Labels)

mutual

theorem Expr.height_relabel : ∀ e : Expr, (e.relabel r).height = e.height
  | .literal _ _ | .ident _ _ => rfl
  | .assign _ _ a b | .binary _ _ a b => by
    simp only [Expr.relabel, Expr.height, Expr.height_relabel a, Expr.height_relabel b]
  | .unary _ _ a | .group _ a | .member _ a _ | .await _ a => by
    simp only [Expr.relabel, Expr.height, Expr.height_relabel a]
  | .call _ callee args => by
    simp only [Expr.relabel, Expr.height, Expr.height_relabel callee, argsHeight_relabel args]
  | .select _ subject arms => by
    simp only [Expr.relabel, Expr.height, Expr.height_relabel subject, armsHeight_relabel arms]
  | .template _ parts => by
    simp only [Expr.relabel, Expr.height, partsHeight_relabel parts]

theorem argsHeight_relabel : ∀ args : List Expr, argsHeight (argsRelabel r args) = argsHeight args
  | [] => rfl
  | e :: es => by
    simp only [argsRelabel, argsHeight, Expr.height_relabel e, argsHeight_relabel es]

theorem armsHeight_relabel : ∀ arms : List Arm, armsHeight (armsRelabel r arms) = armsHeight arms
  | [] => rfl
  | ⟨none, body⟩ :: arms => by
    simp only [armsRelabel, armsHeight, Statement.height_relabel body, armsHeight_relabel arms]
  | ⟨some pattern, body⟩ :: arms => by
    simp only [armsRelabel, armsHeight, Expr.height_relabel pattern,
      Statement.height_relabel body, armsHeight_relabel arms]

theorem partsHeight_relabel : ∀ parts : List Part,
    partsHeight (partsRelabel r parts) = partsHeight parts
  | [] => rfl
  | .text _ :: parts => by simp only [partsRelabel, partsHeight, partsHeight_relabel parts]
  | .expr e :: parts => by
    simp only [partsRelabel, partsHeight, Expr.height_relabel e, partsHeight_relabel parts]

theorem Statement.height_relabel : ∀ s : Statement, (s.relabel r).height = s.height
  | .function _ routine => by
    simp only [Statement.relabel, Statement.height, Routine.height_relabel routine]
  | .classDecl _ _ methods => by
    simp only [Statement.relabel, Statement.height, routinesHeight_relabel methods]
  | .declare _ _ _ _ none => rfl
  | .declare _ _ _ _ (some initial) => by
    simp only [Statement.relabel, Statement.height, Expr.height_relabel initial]
  | .conditional _ condition body none => by
    simp only [Statement.relabel, Statement.height, Expr.height_relabel condition,
      bodyHeight_relabel body]
  | .conditional _ condition body (some otherwise) => by
    simp only [Statement.relabel, Statement.height, Expr.height_relabel condition,
      bodyHeight_relabel body, Statement.height_relabel otherwise]
  | .attempt _ body handler cleanup => by
    simp only [Statement.relabel, Statement.height, bodyHeight_relabel body,
      handlerHeight_relabel handler, cleanupHeight_relabel cleanup]
  | .returning _ none => rfl
  | .returning _ (some value) => by
    simp only [Statement.relabel, Statement.height, Expr.height_relabel value]
  | .block _ body => by
    simp only [Statement.relabel, Statement.height, bodyHeight_relabel body]
  | .expression _ value => by
    simp only [Statement.relabel, Statement.height, Expr.height_relabel value]
  | .failed _ => rfl

theorem bodyHeight_relabel : ∀ body : List Statement,
    bodyHeight (bodyRelabel r body) = bodyHeight body
  | [] => rfl
  | s :: ss => by
    simp only [bodyRelabel, bodyHeight, Statement.height_relabel s, bodyHeight_relabel ss]

theorem handlerHeight_relabel : ∀ handler : Option Handler,
    handlerHeight (handlerRelabel r handler) = handlerHeight handler
  | none => rfl
  | some ⟨_, body⟩ => by
    simp only [handlerRelabel, handlerHeight, bodyHeight_relabel body]

theorem cleanupHeight_relabel : ∀ cleanup : Option (List Statement),
    cleanupHeight (cleanupRelabel r cleanup) = cleanupHeight cleanup
  | none => rfl
  | some body => by simp only [cleanupRelabel, cleanupHeight, bodyHeight_relabel body]

theorem Routine.height_relabel : ∀ m : Routine, (m.relabel r).height = m.height
  | ⟨_, params, _, body, _⟩ => by
    simp only [Routine.relabel, Routine.height, paramsHeight_relabel params,
      bodyHeight_relabel body]

theorem routinesHeight_relabel : ∀ ms : List Routine,
    routinesHeight (routinesRelabel r ms) = routinesHeight ms
  | [] => rfl
  | m :: ms => by
    simp only [routinesRelabel, routinesHeight, Routine.height_relabel m,
      routinesHeight_relabel ms]

theorem paramsHeight_relabel : ∀ params : List Parameter,
    paramsHeight (paramsRelabel r params) = paramsHeight params
  | [] => rfl
  | ⟨_, _, none⟩ :: params => by
    simp only [paramsRelabel, paramsHeight, paramsHeight_relabel params]
  | ⟨_, _, some value⟩ :: params => by
    simp only [paramsRelabel, paramsHeight, Expr.height_relabel value,
      paramsHeight_relabel params]

end

theorem Expr.trailingHeight_relabel (e : Expr) :
    (e.relabel r).trailingHeight = e.trailingHeight := by
  cases e <;> simp [relabel, trailingHeight, height_relabel, argsHeight_relabel]

end

end TwoScript
