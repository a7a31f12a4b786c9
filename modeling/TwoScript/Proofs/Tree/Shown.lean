import TwoScript.Proofs.Tree.Listed

/-!
# What a listing shows of a tree

A listing leaves the spans of a tree out. It also writes some different trees alike: an
infinite number like a name, the text of a template like a string that is put in, and a caught
name like the first statement of its handler. `shown` takes these differences out of a tree
whose spans are forgotten. That keeps the listing, and of two trees that were read with the same
item the same is shown: `Statement.shown_eq`.
-/

namespace TwoScript

/-! ## What a listing shows -/

def Literal.shown (s : Span) : Literal → Expr
  | .number (.infinite false) => .ident s "inf"
  | value => .literal s value

mutual

/-- What a listing shows of an expression without spans. An infinite number looks like a name,
the text of a template like a string that is put in, and the name of a caught value like the
first statement of its handler. -/
def Expr.shown : Expr → Expr
  | .literal s value => value.shown s
  | .ident s name => .ident s name
  | .assign s op target value => .assign s op target.shown value.shown
  | .binary s op left right => .binary s op left.shown right.shown
  | .unary s op operand => .unary s op operand.shown
  | .group s inner => .group s inner.shown
  | .call s callee args => .call s callee.shown (argsShown args)
  | .member s object property => .member s object.shown property
  | .await s operand => .await s operand.shown
  | .select s subject arms => .select s subject.shown (armsShown arms)
  | .template s parts => .template s (partsShown parts)

def argsShown : List Expr → List Expr
  | [] => []
  | e :: es => e.shown :: argsShown es

def armsShown : List Arm → List Arm
  | [] => []
  | ⟨none, body⟩ :: arms => ⟨none, body.shown⟩ :: armsShown arms
  | ⟨some pattern, body⟩ :: arms => ⟨some pattern.shown, body.shown⟩ :: armsShown arms

def partsShown : List Part → List Part
  | [] => []
  | .text text :: parts => .expr (.literal default (.string text)) :: partsShown parts
  | .expr e :: parts => .expr e.shown :: partsShown parts

def Statement.shown : Statement → Statement
  | .function s routine => .function s routine.shown
  | .classDecl s name methods => .classDecl s name (routinesShown methods)
  | .declare s constant name type initial =>
    .declare s constant name type (valueShown initial)
  | .conditional s condition body otherwise =>
    .conditional s condition.shown (bodyShown body) (otherwiseShown otherwise)
  | .attempt s body handler cleanup =>
    .attempt s (bodyShown body) (handlerShown handler) (cleanupShown cleanup)
  | .returning s value => .returning s (valueShown value)
  | .block s body => .block s (bodyShown body)
  | .expression s value => .expression s value.shown
  | .failed s => .failed s

def valueShown : Option Expr → Option Expr
  | none => none
  | some value => some value.shown

def otherwiseShown : Option Statement → Option Statement
  | none => none
  | some statement => some statement.shown

def handlerShown : Option Handler → Option Handler
  | none => none
  | some ⟨none, body⟩ => some ⟨none, bodyShown body⟩
  | some ⟨some name, body⟩ =>
    some ⟨none, .expression default (.ident default name) :: bodyShown body⟩

def cleanupShown : Option (List Statement) → Option (List Statement)
  | none => none
  | some body => some (bodyShown body)

def bodyShown : List Statement → List Statement
  | [] => []
  | s :: ss => s.shown :: bodyShown ss

def Routine.shown : Routine → Routine
  | ⟨name, params, returns, body, async⟩ =>
    ⟨name, paramsShown params, returns, bodyShown body, async⟩

def routinesShown : List Routine → List Routine
  | [] => []
  | r :: rs => r.shown :: routinesShown rs

def Parameter.shown : Parameter → Parameter
  | ⟨name, type, value⟩ => ⟨name, type, valueShown value⟩

def paramsShown : List Parameter → List Parameter
  | [] => []
  | p :: ps => p.shown :: paramsShown ps

end

/-! ## What is shown is listed alike -/

theorem Labels.span_bare (s : Span) : Labels.bare.span s = default :=
  rfl

theorem Labels.map_type_bare (type : Option String) : type.map Labels.bare.type = type :=
  Option.map_id_apply

theorem Literal.item_shown (value : Literal) (s : Span) : (value.shown s).item = value.item := by
  unfold shown
  split <;> rfl

mutual

theorem Expr.item_shown : ∀ e : Expr, (e.relabel .bare).shown.item = e.item
  | .literal _ value => value.item_shown _
  | .ident _ _ => rfl
  | .assign _ _ a b | .binary _ _ a b => by
    simp only [Expr.relabel, Expr.shown, Expr.item, Expr.item_shown a, Expr.item_shown b]
  | .unary _ _ a | .group _ a | .member _ a _ | .await _ a => by
    simp only [Expr.relabel, Expr.shown, Expr.item, Expr.item_shown a]
  | .call _ callee args => by
    simp only [Expr.relabel, Expr.shown, Expr.item, Expr.item_shown callee, argsItems_shown args]
  | .select _ subject arms => by
    simp only [Expr.relabel, Expr.shown, Expr.item, Expr.item_shown subject, armsItems_shown arms]
  | .template _ parts => by
    simp only [Expr.relabel, Expr.shown, Expr.item, partsItems_shown parts]

theorem argsItems_shown : ∀ args : List Expr,
    argsItems (argsShown (argsRelabel .bare args)) = argsItems args
  | [] => rfl
  | e :: es => by
    simp only [argsRelabel, argsShown, argsItems, Expr.item_shown e, argsItems_shown es]

theorem armsItems_shown : ∀ arms : List Arm,
    armsItems (armsShown (armsRelabel .bare arms)) = armsItems arms
  | [] => rfl
  | ⟨none, body⟩ :: arms => by
    simp only [armsRelabel, armsShown, armsItems, Statement.item_shown body, armsItems_shown arms]
  | ⟨some pattern, body⟩ :: arms => by
    simp only [armsRelabel, armsShown, armsItems, Expr.item_shown pattern,
      Statement.item_shown body, armsItems_shown arms]

theorem partsItems_shown : ∀ parts : List Part,
    partsItems (partsShown (partsRelabel .bare parts)) = partsItems parts
  | [] => rfl
  | .text _ :: parts => by
    simp only [partsRelabel, partsShown, partsItems, Expr.item, Literal.item,
      partsItems_shown parts]
  | .expr e :: parts => by
    simp only [partsRelabel, partsShown, partsItems, Expr.item_shown e, partsItems_shown parts]

theorem Statement.item_shown : ∀ s : Statement, (s.relabel .bare).shown.item = s.item
  | .function _ routine => Routine.item_shown routine
  | .classDecl _ _ methods => by
    simp only [Statement.relabel, Statement.shown, Statement.item, routinesItems_shown methods]
  | .declare _ _ _ _ initial => by
    simp only [Statement.relabel_declare, Labels.map_type_bare, Statement.shown, Statement.item,
      valueItems_shown initial]
  | .conditional _ condition body otherwise => by
    simp only [Statement.relabel_conditional, Statement.shown, Statement.item,
      Expr.item_shown condition, bodyItems_shown body, otherwiseItems_shown otherwise]
  | .attempt _ body handler cleanup => by
    simp only [Statement.relabel, Statement.shown, Statement.item, bodyItems_shown body,
      handlerItems_shown handler, cleanupItems_shown cleanup]
  | .returning _ value => by
    simp only [Statement.relabel_returning, Statement.shown, Statement.item, valueItems_shown value]
  | .block _ body => by
    simp only [Statement.relabel, Statement.shown, Statement.item, bodyItems_shown body]
  | .expression _ value => Expr.item_shown value
  | .failed _ => rfl

theorem valueItems_shown : ∀ value : Option Expr,
    valueItems (valueShown (value.map (Expr.relabel .bare))) = valueItems value
  | none => rfl
  | some value => by simp only [Option.map_some, valueShown, valueItems, Expr.item_shown value]

theorem otherwiseItems_shown : ∀ otherwise : Option Statement,
    otherwiseItems (otherwiseShown (otherwise.map (Statement.relabel .bare))) =
      otherwiseItems otherwise
  | none => rfl
  | some statement => by
    simp only [Option.map_some, otherwiseShown, otherwiseItems, Statement.item_shown statement]

theorem handlerItems_shown : ∀ handler : Option Handler,
    handlerItems (handlerShown (handlerRelabel .bare handler)) = handlerItems handler
  | none => rfl
  | some ⟨none, body⟩ => by
    simp only [handlerRelabel, handlerShown, handlerItems, bodyItems_shown body]
  | some ⟨some name, body⟩ => by
    simp only [handlerRelabel, handlerShown, handlerItems, bodyItems, Statement.item, Expr.item,
      bodyItems_shown body]

theorem cleanupItems_shown : ∀ cleanup : Option (List Statement),
    cleanupItems (cleanupShown (cleanupRelabel .bare cleanup)) = cleanupItems cleanup
  | none => rfl
  | some body => by simp only [cleanupRelabel, cleanupShown, cleanupItems, bodyItems_shown body]

theorem bodyItems_shown : ∀ body : List Statement,
    bodyItems (bodyShown (bodyRelabel .bare body)) = bodyItems body
  | [] => rfl
  | s :: ss => by
    simp only [bodyRelabel, bodyShown, bodyItems, Statement.item_shown s, bodyItems_shown ss]

theorem Routine.item_shown : ∀ r : Routine, (r.relabel .bare).shown.item = r.item
  | ⟨_, params, _, body, _⟩ => by
    simp only [Routine.relabel, Labels.map_type_bare, Routine.shown, Routine.item,
      paramsItems_shown params, bodyItems_shown body]

theorem routinesItems_shown : ∀ rs : List Routine,
    routinesItems (routinesShown (routinesRelabel .bare rs)) = routinesItems rs
  | [] => rfl
  | r :: rs => by
    simp only [routinesRelabel, routinesShown, routinesItems, Routine.item_shown r,
      routinesItems_shown rs]

theorem paramsItems_shown : ∀ params : List Parameter,
    paramsItems (paramsShown (paramsRelabel .bare params)) = paramsItems params
  | [] => rfl
  | ⟨_, _, none⟩ :: params => by
    simp only [paramsRelabel, Labels.map_type_bare, paramsShown, Parameter.shown, valueShown,
      paramsItems, Parameter.item, paramsItems_shown params]
  | ⟨_, _, some value⟩ :: params => by
    simp only [paramsRelabel, Labels.map_type_bare, paramsShown, Parameter.shown, valueShown,
      paramsItems, Parameter.item, Expr.item_shown value, paramsItems_shown params]

end

/-! ## Heads of lists -/

def Statement.heads : Statement → List String
  | .function _ _ => ["async", "function"]
  | .classDecl _ _ _ => ["class"]
  | .declare _ _ _ _ _ => ["const", "let"]
  | .conditional _ _ _ _ => ["if"]
  | .attempt _ _ _ _ => ["try"]
  | .returning _ _ => ["return"]
  | .block _ _ => ["block"]
  | .expression _ _ => ["group", "call", "await", "match", "template"]
  | .failed _ => ["error"]

theorem Expr.head_mem (e : Expr) {w : String} {is : List Item}
    (same : e.item = .list (.word w :: is)) :
    w ∈ ["group", "call", "await", "match", "template"] := by
  cases e with
  | literal _ value => exact (value.item_ne_list _ same).elim
  | _ => simp [item] at same ⊢ <;> simp [← same.1]

/-- Statements are listed as lists that begin with a word, expressions aside. -/
theorem Statement.exists_head {s : Statement} (h : s.isExpression = false) :
    ∃ w ∈ s.heads, ∃ is, s.item = .list (.word w :: is) := by
  cases s with
  | function _ routine =>
      obtain ⟨name, params, returns, body, async⟩ := routine
      cases async with
      | false => exact ⟨"function", by simp [heads], _, rfl⟩
      | true => exact ⟨"async", by simp [heads], _, rfl⟩
  | declare _ constant _ _ _ => exact ⟨_, by cases constant <;> simp [heads], _, rfl⟩
  | expression => cases h
  | _ => exact ⟨_, by simp [heads], _, rfl⟩

/-- Statements that are listed alike begin with the same word. -/
theorem Statement.heads_meet {s s' : Statement} (h : s.isExpression = false)
    (same : s.item = s'.item) : ∃ w ∈ s.heads, w ∈ s'.heads := by
  obtain ⟨w, member, is, shape⟩ := exists_head h
  refine ⟨w, member, ?_⟩
  rw [same] at shape
  cases kind : s'.isExpression with
  | false =>
      obtain ⟨w', member', is', shape'⟩ := exists_head kind
      rw [shape] at shape'
      simp only [Item.list.injEq, List.cons.injEq, Item.word.injEq] at shape'
      rw [shape'.1]
      exact member'
  | true =>
      cases s' with
      | expression _ value => exact value.head_mem shape
      | _ => cases kind

theorem Statement.item_ne_mark (s : Statement) (m : String) : s.item ≠ .mark m := by
  cases kind : s.isExpression with
  | false =>
      obtain ⟨w, _, is, shape⟩ := exists_head kind
      simp [shape]
  | true =>
      cases s with
      | expression _ value =>
          cases value with
          | literal _ value =>
              cases value with
              | boolean b => cases b <;> simp [item, Expr.item, Literal.item]
              | _ => simp [item, Expr.item, Literal.item]
          | _ => simp [item, Expr.item]
      | _ => cases kind

/-! ## Names and types -/

/-- A name and its type can be read from what is written. -/
theorem typed_cancel {name name' : String} {type type' : Option String}
    (h : isIdentifier name = true) (h' : isIdentifier name' = true)
    (same : name ++ typeSuffix type = name' ++ typeSuffix type') : name = name' ∧ type = type' := by
  have stop : ∀ (type : Option String) c, (typeSuffix type).toList.head? = some c →
      isWordPart c = false := by
    intro type c next
    cases type with
    | none => simp [typeSuffix] at next
    | some type =>
        obtain rfl : ':' = c := by simpa [typeSuffix] using next
        decide
  have part : ∀ {w : String}, isIdentifier w = true → ∀ c ∈ w.toList, isWordPart c = true :=
    fun word c member => isWordPart_of_mem (isWord_of_isIdentifier word) member
  have chars := congrArg String.toList same
  rw [String.toList_append, String.toList_append] at chars
  have first := run_append (part h) (stop type)
  have second := run_append (part h') (stop type')
  rw [chars, second.1, second.2] at first
  refine ⟨(String.toList_inj.mp first.1).symm, ?_⟩
  have suffix := String.toList_inj.mp first.2
  cases type with
  | none =>
      cases type' with
      | none => rfl
      | some type' => simp [typeSuffix, ← String.toList_inj] at suffix
  | some type =>
      cases type' with
      | none => simp [typeSuffix, ← String.toList_inj] at suffix
      | some type' =>
          simp only [typeSuffix, ← String.toList_inj, String.toList_append] at suffix
          rw [String.toList_inj.mp (List.append_cancel_left suffix)]

theorem returnsItems_cancel {returns returns' : Option String} {body body' : List Statement}
    (same : returnsItems returns ++ bodyItems body = returnsItems returns' ++ bodyItems body') :
    returns = returns' ∧ bodyItems body = bodyItems body' := by
  have first : ∀ {body : List Statement} {is : List Item}, bodyItems body ≠ .mark "->" :: is := by
    intro body is equal
    cases body with
    | nil => cases equal
    | cons s ss => exact s.item_ne_mark _ (List.cons.inj equal).1
  cases returns with
  | none =>
      cases returns' with
      | none => exact ⟨rfl, same⟩
      | some type' => exact (first same).elim
  | some type =>
      cases returns' with
      | none => exact (first same.symm).elim
      | some type' =>
          simp only [returnsItems, List.cons_append, List.nil_append, List.cons.injEq,
            Item.word.injEq, true_and] at same
          exact ⟨by rw [same.1], same.2⟩

theorem handlerItems_cases (handler : Option Handler) :
    handlerItems handler = [] ∨ ∃ is, handlerItems handler = [.list (.word "catch" :: is)] := by
  rcases handler with _ | ⟨_ | name, body⟩
  · exact .inl rfl
  · exact .inr ⟨_, rfl⟩
  · exact .inr ⟨_, rfl⟩

theorem cleanupItems_cases (cleanup : Option (List Statement)) :
    cleanupItems cleanup = [] ∨ ∃ is, cleanupItems cleanup = [.list (.word "finally" :: is)] := by
  cases cleanup with
  | none => exact .inl rfl
  | some body => exact .inr ⟨_, rfl⟩

/-- A handler can be told from a cleanup. -/
theorem handlerItems_cancel {handler handler' : Option Handler}
    {cleanup cleanup' : Option (List Statement)}
    (same : handlerItems handler ++ cleanupItems cleanup =
      handlerItems handler' ++ cleanupItems cleanup') :
    handlerItems handler = handlerItems handler' ∧
      cleanupItems cleanup = cleanupItems cleanup' := by
  rcases handlerItems_cases handler with left | ⟨is, left⟩ <;>
    rcases handlerItems_cases handler' with right | ⟨js, right⟩ <;>
    rw [left, right] at same ⊢
  · exact ⟨rfl, same⟩
  · rcases cleanupItems_cases cleanup with last | ⟨ks, last⟩ <;> simp [last] at same
  · rcases cleanupItems_cases cleanup' with last | ⟨ks, last⟩ <;> simp [last] at same
  · exact ⟨by simp [(List.cons.inj same).1], (List.cons.inj same).2⟩

/-! ## Items determine what is shown -/

theorem BinaryOp.mem_all (op : BinaryOp) : op ∈ all := by
  cases op <;> decide

theorem AssignOp.mem_all (op : AssignOp) : op ∈ all := by
  cases op <;> decide

theorem BinaryOp.symbol_injective {op op' : BinaryOp} (same : op.symbol = op'.symbol) :
    op = op' := by
  have table : ∀ a ∈ all, ∀ b ∈ all, a.symbol = b.symbol → a = b := by decide +kernel
  exact table op op.mem_all op' op'.mem_all same

theorem AssignOp.symbol_injective {op op' : AssignOp} (same : op.symbol = op'.symbol) :
    op = op' := by
  have table : ∀ a ∈ all, ∀ b ∈ all, a.symbol = b.symbol → a = b := by decide +kernel
  exact table op op.mem_all op' op'.mem_all same

theorem UnaryOp.symbol_injective {op op' : UnaryOp} (same : op.symbol = op'.symbol) :
    op = op' := by
  cases op <;> cases op' <;> simp [symbol] at same ⊢

theorem AssignOp.symbol_ne_binary (op : AssignOp) (op' : BinaryOp) : op.symbol ≠ op'.symbol := by
  have table : ∀ a ∈ all, ∀ b ∈ BinaryOp.all, a.symbol ≠ b.symbol := by decide +kernel
  exact table op op.mem_all op' op'.mem_all

theorem AssignOp.symbol_ne_dot (op : AssignOp) : op.symbol ≠ "." := by
  cases op <;> simp [symbol]

theorem BinaryOp.symbol_ne_dot (op : BinaryOp) : op.symbol ≠ "." := by
  cases op <;> simp [symbol]

theorem Routine.item_cancel {r r' : Routine} (same : r.item = r'.item) :
    r.async = r'.async ∧ r.name = r'.name ∧ paramsItems r.params = paramsItems r'.params ∧
      returnsItems r.returns ++ bodyItems r.body =
        returnsItems r'.returns ++ bodyItems r'.body := by
  obtain ⟨name, params, returns, body, async⟩ := r
  obtain ⟨name', params', returns', body', async'⟩ := r'
  cases async <;> cases async' <;> simp [item] at same ⊢ <;> exact same

section

variable {k : Check} {s : Span}

theorem Statement.Every.declare {constant : Bool} {name : String} {type : Option String}
    {initial : Option Expr} (h : (Statement.declare s constant name type initial).Every k) :
    k.statement (.declare s constant name type initial) ∧ ∀ e ∈ initial, e.Every k := by
  cases initial with
  | none => exact ⟨h, by simp⟩
  | some e => exact ⟨h.1, by simpa using h.2⟩

theorem Statement.Every.returning {value : Option Expr}
    (h : (Statement.returning s value).Every k) : ∀ e ∈ value, e.Every k := by
  cases value with
  | none => simp
  | some e => simpa using h.2

theorem Statement.Every.conditional {condition : Expr} {body : List Statement}
    {otherwise : Option Statement}
    (h : (Statement.conditional s condition body otherwise).Every k) :
    condition.Every k ∧ bodyEvery k body ∧ ∀ t ∈ otherwise, t.Every k := by
  cases otherwise with
  | none => exact ⟨h.2.1, h.2.2, by simp⟩
  | some t => exact ⟨h.2.1, h.2.2.1, by simpa using h.2.2.2⟩

end

/-- A name is shown for what is listed as one. -/
theorem Expr.shown_of_word {e : Expr} (h : e.Every listable) {name : String}
    (named : isName name = true) (same : e.item = .word name) :
    (e.relabel .bare).shown = .ident default name := by
  cases e with
  | literal _ value =>
      have other : name ∉ ["true", "false", "null"] := by
        intro keyword
        simp only [List.mem_cons, List.not_mem_nil, or_false] at keyword
        rcases keyword with rfl | rfl | rfl <;> cases named
      have word := isWord_of_isName named
      obtain ⟨rfl, rfl⟩ := (Literal.Written.listed h).infinite_of_word word other same
      rfl
  | ident _ name' => rw [relabel, shown, Item.word.inj same, Labels.span_bare]
  | _ => simp [item] at same

theorem Statement.shown_of_word {s : Statement} (h : s.Every listable) {name : String}
    (named : isIdentifier name = true) (same : s.item = .word name) :
    (s.relabel .bare).shown = .expression default (.ident default name) := by
  cases kind : s.isExpression with
  | false =>
      obtain ⟨w, _, is, shape⟩ := exists_head kind
      rw [same] at shape
      cases shape
  | true =>
      cases s with
      | expression _ value =>
          rw [← isName_eq] at named
          rw [relabel, shown, Expr.shown_of_word h.2 named same, Labels.span_bare]
      | _ => cases kind

/-- A string is shown for what is listed as one. -/
theorem Expr.shown_of_text {e : Expr} (h : e.Every listable) {text : String}
    (same : e.item = .text text) :
    (e.relabel .bare).shown = .literal default (.string text) := by
  cases e with
  | literal _ value =>
      have listed : (Literal.string text).Listed := trivial
      obtain rfl := (Literal.Written.listed h).item_injective listed same
      rfl
  | _ => simp [item] at same

namespace Expr.IsPattern

variable {e e' : Expr}

theorem item_ne_default (h : e.IsPattern) : e.item ≠ .word "default" := by
  intro same
  obtain ⟨_, value, rfl, listed⟩ := h.exists_literal
  have infinity := (listed.infinite_of_word (by decide) (by decide) same).2
  exact absurd infinity (by decide)

theorem shown_eq (h : e.IsPattern) (h' : e'.IsPattern) (same : e.item = e'.item) :
    (e.relabel .bare).shown = (e'.relabel .bare).shown := by
  obtain ⟨_, value, rfl, listed⟩ := h.exists_literal
  obtain ⟨_, value', rfl, listed'⟩ := h'.exists_literal
  rw [listed.item_injective listed' same]
  rfl

end Expr.IsPattern

/-- A literal is listed alone, and what is listed like it shows the same. -/
theorem Expr.shown_eq_of_literal {s : Span} {value : Literal} {e' : Expr}
    (h : (Expr.literal s value).Every listable) (h' : e'.Every listable)
    (same : (Expr.literal s value).item = e'.item) :
    ((Expr.literal s value).relabel .bare).shown = (e'.relabel .bare).shown := by
  cases e' with
  | literal _ value' =>
      simp only [relabel, shown, Labels.span_bare,
        (Literal.Written.listed h).item_injective (Literal.Written.listed h') same]
  | ident _ name => exact shown_of_word h h' same
  | _ => simp [item] at same

/-! ### Trees with the same item

Items determine the form of a tree and the items of its children. -/

/-- Expressions of one form, the parts of which are listed alike. -/
inductive Expr.Alike : Expr → Expr → Prop where
  | assign {s s' : Span} {op : AssignOp} {a a' b b' : Expr} (target : a.item = a'.item)
      (value : b.item = b'.item) : Alike (.assign s op a b) (.assign s' op a' b')
  | binary {s s' : Span} {op : BinaryOp} {a a' b b' : Expr} (left : a.item = a'.item)
      (right : b.item = b'.item) : Alike (.binary s op a b) (.binary s' op a' b')
  | unary {s s' : Span} {op : UnaryOp} {a a' : Expr} (operand : a.item = a'.item) :
      Alike (.unary s op a) (.unary s' op a')
  | group {s s' : Span} {a a' : Expr} (inner : a.item = a'.item) :
      Alike (.group s a) (.group s' a')
  | call {s s' : Span} {a a' : Expr} {args args' : List Expr} (callee : a.item = a'.item)
      (items : argsItems args = argsItems args') : Alike (.call s a args) (.call s' a' args')
  | member {s s' : Span} {a a' : Expr} {property : String} (object : a.item = a'.item) :
      Alike (.member s a property) (.member s' a' property)
  | await {s s' : Span} {a a' : Expr} (operand : a.item = a'.item) :
      Alike (.await s a) (.await s' a')
  | select {s s' : Span} {a a' : Expr} {arms arms' : List Arm} (subject : a.item = a'.item)
      (items : armsItems arms = armsItems arms') : Alike (.select s a arms) (.select s' a' arms')
  | template {s s' : Span} {parts parts' : List Part}
      (items : partsItems parts = partsItems parts') :
      Alike (.template s parts) (.template s' parts')

/-- Operators and dots are listed behind their mark. -/
theorem Expr.alike_of_mark {e e' : Expr} {m : String} {is : List Item} (same : e.item = e'.item)
    (first : e.item = .list (.mark m :: is)) : e.Alike e' := by
  cases e with
  | assign _ op a b =>
      cases e' with
      | assign _ op' a' b' =>
          simp only [item, Item.list.injEq, List.cons.injEq, Item.mark.injEq, and_true] at same
          obtain rfl := AssignOp.symbol_injective same.1
          exact .assign same.2.1 same.2.2
      | binary _ op' _ _ => simp [item, op.symbol_ne_binary op'] at same
      | member => simp [item, op.symbol_ne_dot] at same
      | _ => simp [item] at same
  | binary _ op a b =>
      cases e' with
      | binary _ op' a' b' =>
          simp only [item, Item.list.injEq, List.cons.injEq, Item.mark.injEq, and_true] at same
          obtain rfl := BinaryOp.symbol_injective same.1
          exact .binary same.2.1 same.2.2
      | assign _ op' _ _ => simp [item, (op'.symbol_ne_binary op).symm] at same
      | member => simp [item, op.symbol_ne_dot] at same
      | _ => simp [item] at same
  | unary _ op a =>
      cases e' with
      | unary _ op' a' =>
          simp only [item, Item.list.injEq, List.cons.injEq, Item.mark.injEq, and_true] at same
          obtain rfl := UnaryOp.symbol_injective same.1
          exact .unary same.2
      | _ => simp [item] at same
  | member _ a property =>
      cases e' with
      | member _ a' property' =>
          simp only [item, Item.list.injEq, List.cons.injEq, Item.word.injEq, true_and,
            and_true] at same
          obtain ⟨object, rfl⟩ := same
          exact .member object
      | assign _ op' _ _ => simp [item, op'.symbol_ne_dot.symm] at same
      | binary _ op' _ _ => simp [item, op'.symbol_ne_dot.symm] at same
      | _ => simp [item] at same
  | literal _ value => exact (value.item_ne_list _ first).elim
  | _ => simp [item] at first

/-- The other forms are listed behind a word. -/
theorem Expr.alike_of_word {e e' : Expr} {w : String} {is : List Item} (same : e.item = e'.item)
    (first : e.item = .list (.word w :: is)) : e.Alike e' := by
  cases e with
  | group _ a =>
      cases e' with
      | group _ a' => exact .group (by simpa [item] using same)
      | _ => simp [item] at same
  | call _ a args =>
      cases e' with
      | call _ a' args' =>
          simp only [item, Item.list.injEq, List.cons.injEq, true_and] at same
          exact .call same.1 same.2
      | _ => simp [item] at same
  | await _ a =>
      cases e' with
      | await _ a' => exact .await (by simpa [item] using same)
      | _ => simp [item] at same
  | select _ a arms =>
      cases e' with
      | select _ a' arms' =>
          simp only [item, Item.list.injEq, List.cons.injEq, true_and] at same
          exact .select same.1 same.2
      | _ => simp [item] at same
  | template _ parts =>
      cases e' with
      | template _ parts' => exact .template (by simpa [item] using same)
      | _ => simp [item] at same
  | literal _ value => exact (value.item_ne_list _ first).elim
  | _ => simp [item] at first

inductive Statement.Alike : Statement → Statement → Prop where
  | function {s s' : Span} {r r' : Routine} (routine : r.item = r'.item) :
      Alike (.function s r) (.function s' r')
  | classDecl {s s' : Span} {name : String} {methods methods' : List Routine}
      (items : routinesItems methods = routinesItems methods') :
      Alike (.classDecl s name methods) (.classDecl s' name methods')
  | declare {s s' : Span} {constant : Bool} {name name' : String} {type type' : Option String}
      {initial initial' : Option Expr} (typed : name ++ typeSuffix type = name' ++ typeSuffix type')
      (items : valueItems initial = valueItems initial') :
      Alike (.declare s constant name type initial) (.declare s' constant name' type' initial')
  | conditional {s s' : Span} {condition condition' : Expr} {body body' : List Statement}
      {otherwise otherwise' : Option Statement} (test : condition.item = condition'.item)
      (inside : bodyItems body = bodyItems body')
      (others : otherwiseItems otherwise = otherwiseItems otherwise') :
      Alike (.conditional s condition body otherwise) (.conditional s' condition' body' otherwise')
  | attempt {s s' : Span} {body body' : List Statement} {handler handler' : Option Handler}
      {cleanup cleanup' : Option (List Statement)} (inside : bodyItems body = bodyItems body')
      (handled : handlerItems handler = handlerItems handler')
      (cleaned : cleanupItems cleanup = cleanupItems cleanup') :
      Alike (.attempt s body handler cleanup) (.attempt s' body' handler' cleanup')
  | returning {s s' : Span} {value value' : Option Expr}
      (items : valueItems value = valueItems value') :
      Alike (.returning s value) (.returning s' value')
  | block {s s' : Span} {body body' : List Statement} (inside : bodyItems body = bodyItems body') :
      Alike (.block s body) (.block s' body')
  | expression {s s' : Span} {e e' : Expr} (value : e.item = e'.item) :
      Alike (.expression s e) (.expression s' e')
  | failed {s s' : Span} : Alike (.failed s) (.failed s')

theorem Statement.alike_of_item {s s' : Statement} (same : s.item = s'.item) : s.Alike s' := by
  cases s with
  | function _ r =>
      cases s' with
      | function _ r' => exact .function same
      | _ => simpa [heads] using heads_meet rfl same
  | classDecl _ name methods =>
      cases s' with
      | classDecl _ name' methods' =>
          simp only [item, Item.list.injEq, List.cons.injEq, Item.word.injEq, true_and] at same
          obtain ⟨rfl, items⟩ := same
          exact .classDecl items
      | _ => simpa [heads] using heads_meet rfl same
  | declare _ constant name type initial =>
      cases s' with
      | declare _ constant' name' type' initial' =>
          simp only [item, Item.list.injEq, List.cons.injEq, Item.word.injEq] at same
          obtain ⟨keyword, typed, items⟩ := same
          obtain rfl : constant = constant' := by
            cases constant <;> cases constant' <;> simp at keyword ⊢
          exact .declare typed items
      | _ => simpa [heads] using heads_meet rfl same
  | conditional _ condition body otherwise =>
      cases s' with
      | conditional _ condition' body' otherwise' =>
          simp only [item, Item.list.injEq, List.cons.injEq, true_and] at same
          exact .conditional same.1 same.2.1 same.2.2
      | _ => simpa [heads] using heads_meet rfl same
  | attempt _ body handler cleanup =>
      cases s' with
      | attempt _ body' handler' cleanup' =>
          simp only [item, Item.list.injEq, List.cons.injEq, true_and] at same
          obtain ⟨handled, cleaned⟩ := handlerItems_cancel same.2
          exact .attempt same.1 handled cleaned
      | _ => simpa [heads] using heads_meet rfl same
  | returning _ value =>
      cases s' with
      | returning _ value' => exact .returning (by simpa [item] using same)
      | _ => simpa [heads] using heads_meet rfl same
  | block _ body =>
      cases s' with
      | block _ body' => exact .block (by simpa [item] using same)
      | _ => simpa [heads] using heads_meet rfl same
  | expression _ e =>
      cases s' with
      | expression _ e' => exact .expression same
      | _ => simpa [heads] using heads_meet rfl same.symm
  | failed _ =>
      cases s' with
      | failed _ => exact .failed
      | _ => simpa [heads] using heads_meet rfl same

mutual

theorem Expr.shown_eq : ∀ e e' : Expr, e.Every listable → e'.Every listable →
    e.item = e'.item → (e.relabel .bare).shown = (e'.relabel .bare).shown
  | .literal _ _, _, h, h', same => Expr.shown_eq_of_literal h h' same
  | .ident _ _, _, h, h', same => (Expr.shown_of_word h' h same.symm).symm
  | .assign _ op a b, e', h, h', same => by
    cases Expr.alike_of_mark same rfl with
    | assign target value =>
        simp only [Expr.relabel, Expr.shown, Labels.span_bare,
          Expr.shown_eq a _ h.2.1 h'.2.1 target, Expr.shown_eq b _ h.2.2 h'.2.2 value]
  | .binary _ op a b, e', h, h', same => by
    cases Expr.alike_of_mark same rfl with
    | binary left right =>
        simp only [Expr.relabel, Expr.shown, Labels.span_bare,
          Expr.shown_eq a _ h.2.1 h'.2.1 left, Expr.shown_eq b _ h.2.2 h'.2.2 right]
  | .unary _ op a, e', h, h', same => by
    cases Expr.alike_of_mark same rfl with
    | unary operand =>
        simp only [Expr.relabel, Expr.shown, Labels.span_bare,
          Expr.shown_eq a _ h.2 h'.2 operand]
  | .group _ a, e', h, h', same => by
    cases Expr.alike_of_word same rfl with
    | group inner =>
        simp only [Expr.relabel, Expr.shown, Labels.span_bare, Expr.shown_eq a _ h.2 h'.2 inner]
  | .call _ a args, e', h, h', same => by
    cases Expr.alike_of_word same rfl with
    | call callee items =>
        simp only [Expr.relabel, Expr.shown, Labels.span_bare,
          Expr.shown_eq a _ h.2.1 h'.2.1 callee, argsShown_eq args _ h.2.2 h'.2.2 items]
  | .member _ a property, e', h, h', same => by
    cases Expr.alike_of_mark same rfl with
    | member object =>
        simp only [Expr.relabel, Expr.shown, Labels.span_bare, Expr.shown_eq a _ h.2 h'.2 object]
  | .await _ a, e', h, h', same => by
    cases Expr.alike_of_word same rfl with
    | await operand =>
        simp only [Expr.relabel, Expr.shown, Labels.span_bare,
          Expr.shown_eq a _ h.2 h'.2 operand]
  | .select _ a arms, e', h, h', same => by
    cases Expr.alike_of_word same rfl with
    | select subject items =>
        simp only [Expr.relabel, Expr.shown, Labels.span_bare,
          Expr.shown_eq a _ h.2.1 h'.2.1 subject, armsShown_eq arms _ h.2.2 h'.2.2 items]
  | .template _ parts, e', h, h', same => by
    cases Expr.alike_of_word same rfl with
    | template items =>
        simp only [Expr.relabel, Expr.shown, Labels.span_bare,
          partsShown_eq parts _ h.2 h'.2 items]

theorem argsShown_eq : ∀ args args' : List Expr, argsEvery listable args →
    argsEvery listable args' → argsItems args = argsItems args' →
      argsShown (argsRelabel .bare args) = argsShown (argsRelabel .bare args')
  | [] => by
    intro args' _ _ same
    cases args' with
    | nil => rfl
    | cons => cases same
  | e :: es => by
    intro args' h h' same
    cases args' with
    | nil => cases same
    | cons e' es' =>
        obtain ⟨first, rest⟩ := List.cons.inj same
        simp only [argsRelabel, argsShown, Expr.shown_eq e e' h.1 h'.1 first,
          argsShown_eq es es' h.2 h'.2 rest]

theorem armsShown_eq : ∀ arms arms' : List Arm, armsEvery listable arms →
    armsEvery listable arms' → armsItems arms = armsItems arms' →
      armsShown (armsRelabel .bare arms) = armsShown (armsRelabel .bare arms')
  | [] => by
    intro arms' _ _ same
    rcases arms' with _ | ⟨⟨_ | pattern', body'⟩, arms'⟩
    · rfl
    · cases same
    · cases same
  | ⟨none, body⟩ :: arms => by
    intro arms' h h' same
    rcases arms' with _ | ⟨⟨_ | pattern', body'⟩, arms'⟩
    · cases same
    · simp only [armsItems, List.cons.injEq, Item.list.injEq, true_and, and_true] at same
      simp only [armsRelabel, armsShown, Statement.shown_eq body body' h.1 h'.1 same.1,
        armsShown_eq arms arms' h.2 h'.2 same.2]
    · simp only [armsItems, List.cons.injEq, Item.list.injEq] at same
      exact (Expr.IsPattern.item_ne_default h'.1 same.1.1.symm).elim
  | ⟨some pattern, body⟩ :: arms => by
    intro arms' h h' same
    rcases arms' with _ | ⟨⟨_ | pattern', body'⟩, arms'⟩
    · cases same
    · simp only [armsItems, List.cons.injEq, Item.list.injEq] at same
      exact (Expr.IsPattern.item_ne_default h.1 same.1.1).elim
    · simp only [armsItems, List.cons.injEq, Item.list.injEq, and_true] at same
      simp only [armsRelabel, armsShown, Expr.IsPattern.shown_eq h.1 h'.1 same.1.1,
        Statement.shown_eq body body' h.2.1 h'.2.1 same.1.2,
        armsShown_eq arms arms' h.2.2 h'.2.2 same.2]

theorem partsShown_eq : ∀ parts parts' : List Part, partsEvery listable parts →
    partsEvery listable parts' → partsItems parts = partsItems parts' →
      partsShown (partsRelabel .bare parts) = partsShown (partsRelabel .bare parts')
  | [] => by
    intro parts' _ _ same
    rcases parts' with _ | ⟨_ | _, parts'⟩
    · rfl
    · cases same
    · cases same
  | .text text :: parts => by
    intro parts' h h' same
    rcases parts' with _ | ⟨text' | e', parts'⟩
    · cases same
    · obtain ⟨first, rest⟩ := List.cons.inj same
      simp only [partsRelabel, partsShown, Item.text.inj first,
        partsShown_eq parts parts' h h' rest]
    · obtain ⟨first, rest⟩ := List.cons.inj same
      simp only [partsRelabel, partsShown, Expr.shown_of_text h'.1 first.symm,
        partsShown_eq parts parts' h h'.2 rest]
  | .expr e :: parts => by
    intro parts' h h' same
    rcases parts' with _ | ⟨text' | e', parts'⟩
    · cases same
    · obtain ⟨first, rest⟩ := List.cons.inj same
      simp only [partsRelabel, partsShown, Expr.shown_of_text h.1 first,
        partsShown_eq parts parts' h.2 h' rest]
    · obtain ⟨first, rest⟩ := List.cons.inj same
      simp only [partsRelabel, partsShown, Expr.shown_eq e e' h.1 h'.1 first,
        partsShown_eq parts parts' h.2 h'.2 rest]

theorem Statement.shown_eq : ∀ s s' : Statement, s.Every listable → s'.Every listable →
    s.item = s'.item → (s.relabel .bare).shown = (s'.relabel .bare).shown
  | .function _ r, s', h, h', same => by
    cases Statement.alike_of_item same with
    | function routine =>
        simp only [Statement.relabel, Statement.shown, Labels.span_bare,
          Routine.shown_eq r _ h.1 h'.1 h.2 h'.2 routine]
  | .classDecl _ name methods, s', h, h', same => by
    cases Statement.alike_of_item same with
    | classDecl items =>
        simp only [Statement.relabel, Statement.shown, Labels.span_bare,
          routinesShown_eq methods _ h.1.2 h'.1.2 h.2 h'.2 items]
  | .declare _ constant name type initial, s', h, h', same => by
    cases Statement.alike_of_item same with
    | declare typed items =>
        obtain ⟨root, values⟩ := h.declare
        obtain ⟨root', values'⟩ := h'.declare
        obtain ⟨rfl, rfl⟩ := typed_cancel root.1 root'.1 typed
        simp only [Statement.relabel_declare, Statement.shown, Labels.span_bare,
          valueShown_eq initial _ values values' items]
  | .conditional _ condition body otherwise, s', h, h', same => by
    cases Statement.alike_of_item same with
    | conditional test inside others =>
        obtain ⟨first, second, third⟩ := h.conditional
        obtain ⟨first', second', third'⟩ := h'.conditional
        simp only [Statement.relabel_conditional, Statement.shown, Labels.span_bare,
          Expr.shown_eq condition _ first first' test,
          bodyShown_eq body _ second second' inside,
          otherwiseShown_eq otherwise _ third third' others]
  | .attempt _ body handler cleanup, s', h, h', same => by
    cases Statement.alike_of_item same with
    | attempt inside handled cleaned =>
        simp only [Statement.relabel, Statement.shown, Labels.span_bare,
          bodyShown_eq body _ h.2.1 h'.2.1 inside,
          handlerShown_eq handler _ h.1.2 h'.1.2 h.2.2.1 h'.2.2.1 handled,
          cleanupShown_eq cleanup _ h.2.2.2 h'.2.2.2 cleaned]
  | .returning _ value, s', h, h', same => by
    cases Statement.alike_of_item same with
    | returning items =>
        simp only [Statement.relabel_returning, Statement.shown, Labels.span_bare,
          valueShown_eq value _ h.returning h'.returning items]
  | .block _ body, s', h, h', same => by
    cases Statement.alike_of_item same with
    | block inside =>
        simp only [Statement.relabel, Statement.shown, Labels.span_bare,
          bodyShown_eq body _ h.2 h'.2 inside]
  | .expression _ e, s', h, h', same => by
    cases Statement.alike_of_item same with
    | expression value =>
        simp only [Statement.relabel, Statement.shown, Labels.span_bare,
          Expr.shown_eq e _ h.2 h'.2 value]
  | .failed _, s', _, _, same => by
    cases Statement.alike_of_item same
    rfl

theorem valueShown_eq : ∀ value value' : Option Expr, (∀ e ∈ value, e.Every listable) →
    (∀ e ∈ value', e.Every listable) → valueItems value = valueItems value' →
      valueShown (value.map (Expr.relabel .bare)) = valueShown (value'.map (Expr.relabel .bare))
  | none => by
    intro value' _ _ same
    cases value' with
    | none => rfl
    | some => cases same
  | some e => by
    intro value' h h' same
    cases value' with
    | none => cases same
    | some e' =>
        simp only [Option.map_some, valueShown,
          Expr.shown_eq e e' (h e rfl) (h' e' rfl) (List.cons.inj same).1]

theorem otherwiseShown_eq : ∀ otherwise otherwise' : Option Statement,
    (∀ s ∈ otherwise, s.Every listable) → (∀ s ∈ otherwise', s.Every listable) →
      otherwiseItems otherwise = otherwiseItems otherwise' →
        otherwiseShown (otherwise.map (Statement.relabel .bare)) =
          otherwiseShown (otherwise'.map (Statement.relabel .bare))
  | none => by
    intro otherwise' _ _ same
    cases otherwise' with
    | none => rfl
    | some => cases same
  | some s => by
    intro otherwise' h h' same
    cases otherwise' with
    | none => cases same
    | some s' =>
        simp only [otherwiseItems, List.cons.injEq, Item.list.injEq, true_and, and_true] at same
        simp only [Option.map_some, otherwiseShown,
          Statement.shown_eq s s' (h s rfl) (h' s' rfl) same]

theorem handlerShown_eq : ∀ handler handler' : Option Handler,
    (∀ h, handler = some h → ∀ name, h.binding = some name → isIdentifier name = true) →
    (∀ h, handler' = some h → ∀ name, h.binding = some name → isIdentifier name = true) →
    handlerEvery listable handler → handlerEvery listable handler' →
      handlerItems handler = handlerItems handler' →
        handlerShown (handlerRelabel .bare handler) = handlerShown (handlerRelabel .bare handler')
  | none => by
    intro handler' _ _ _ _ same
    rcases handler' with _ | ⟨_ | name', body'⟩
    · rfl
    · cases same
    · cases same
  | some ⟨none, body⟩ => by
    intro handler' _ names' h h' same
    rcases handler' with _ | ⟨_ | name', body'⟩
    · cases same
    · simp only [handlerItems, List.cons.injEq, Item.list.injEq, true_and, and_true] at same
      simp only [handlerRelabel, handlerShown, bodyShown_eq body body' h h' same]
    · -- The name is read as a statement in front of the others.
      simp only [handlerItems, List.cons.injEq, Item.list.injEq, true_and, and_true] at same
      have named := names' _ rfl name' rfl
      rw [← isName_eq] at named
      have more := bodyShown_eq body (.expression default (.ident default name') :: body') h
        ⟨⟨trivial, named⟩, h'⟩ same
      simp only [handlerRelabel, handlerShown, more]
      rfl
  | some ⟨some name, body⟩ => by
    intro handler' names names' h h' same
    rcases handler' with _ | ⟨_ | name', body'⟩
    · cases same
    · simp only [handlerItems, List.cons.injEq, Item.list.injEq, true_and, and_true] at same
      cases body' with
      | nil => cases same
      | cons s' ss' =>
          obtain ⟨first, rest⟩ := List.cons.inj same
          simp only [handlerRelabel, handlerShown, bodyRelabel, bodyShown,
            Statement.shown_of_word h'.1 (names _ rfl name rfl) first.symm,
            bodyShown_eq body ss' h h'.2 rest]
    · simp only [handlerItems, List.cons.injEq, Item.list.injEq, Item.word.injEq, true_and,
        and_true] at same
      simp only [handlerRelabel, handlerShown, same.1, bodyShown_eq body body' h h' same.2]

theorem cleanupShown_eq : ∀ cleanup cleanup' : Option (List Statement),
    cleanupEvery listable cleanup → cleanupEvery listable cleanup' →
      cleanupItems cleanup = cleanupItems cleanup' →
        cleanupShown (cleanupRelabel .bare cleanup) = cleanupShown (cleanupRelabel .bare cleanup')
  | none => by
    intro cleanup' _ _ same
    cases cleanup' with
    | none => rfl
    | some => cases same
  | some body => by
    intro cleanup' h h' same
    cases cleanup' with
    | none => cases same
    | some body' =>
        simp only [cleanupItems, List.cons.injEq, Item.list.injEq, true_and, and_true] at same
        simp only [cleanupRelabel, cleanupShown, bodyShown_eq body body' h h' same]

theorem bodyShown_eq : ∀ body body' : List Statement, bodyEvery listable body →
    bodyEvery listable body' → bodyItems body = bodyItems body' →
      bodyShown (bodyRelabel .bare body) = bodyShown (bodyRelabel .bare body')
  | [] => by
    intro body' _ _ same
    cases body' with
    | nil => rfl
    | cons => cases same
  | s :: ss => by
    intro body' h h' same
    cases body' with
    | nil => cases same
    | cons s' ss' =>
        obtain ⟨first, rest⟩ := List.cons.inj same
        simp only [bodyRelabel, bodyShown, Statement.shown_eq s s' h.1 h'.1 first,
          bodyShown_eq ss ss' h.2 h'.2 rest]

theorem Routine.shown_eq : ∀ r r' : Routine, r.WellFormed → r'.WellFormed → r.Every listable →
    r'.Every listable → r.item = r'.item → (r.relabel .bare).shown = (r'.relabel .bare).shown
  | ⟨name, params, returns, body, async⟩ => by
    rintro ⟨name', params', returns', body', async'⟩ names names' h h' same
    obtain ⟨asyncs, name, inside, rest⟩ := Routine.item_cancel same
    obtain ⟨types, bodies⟩ := returnsItems_cancel rest
    dsimp only at asyncs name types
    simp only [Routine.relabel, Routine.shown, asyncs, name, types,
      paramsShown_eq params params' names.2 names'.2 h.1 h'.1 inside,
      bodyShown_eq body body' h.2 h'.2 bodies]

theorem routinesShown_eq : ∀ rs rs' : List Routine, (∀ r ∈ rs, r.WellFormed) →
    (∀ r ∈ rs', r.WellFormed) → routinesEvery listable rs → routinesEvery listable rs' →
      routinesItems rs = routinesItems rs' →
        routinesShown (routinesRelabel .bare rs) = routinesShown (routinesRelabel .bare rs')
  | [] => by
    intro rs' _ _ _ _ same
    cases rs' with
    | nil => rfl
    | cons => cases same
  | r :: rs => by
    intro rs' names names' h h' same
    cases rs' with
    | nil => cases same
    | cons r' rs' =>
        obtain ⟨first, rest⟩ := List.cons.inj same
        rw [List.forall_mem_cons] at names names'
        simp only [routinesRelabel, routinesShown,
          Routine.shown_eq r r' names.1 names'.1 h.1 h'.1 first,
          routinesShown_eq rs rs' names.2 names'.2 h.2 h'.2 rest]

theorem paramsShown_eq : ∀ params params' : List Parameter,
    (∀ p ∈ params, isIdentifier p.name = true) → (∀ p ∈ params', isIdentifier p.name = true) →
    paramsEvery listable params → paramsEvery listable params' →
      paramsItems params = paramsItems params' →
        paramsShown (paramsRelabel .bare params) = paramsShown (paramsRelabel .bare params')
  | [] => by
    intro params' _ _ _ _ same
    cases params' with
    | nil => rfl
    | cons => cases same
  | ⟨name, type, none⟩ :: params => by
    intro params' names names' h h' same
    rcases params' with _ | ⟨⟨name', type', _ | value'⟩, params'⟩
    · cases same
    · obtain ⟨first, rest⟩ := List.cons.inj same
      rw [List.forall_mem_cons] at names names'
      obtain ⟨rfl, rfl⟩ := typed_cancel names.1 names'.1 (Item.word.inj first)
      simp only [paramsRelabel, paramsShown,
        paramsShown_eq params params' names.2 names'.2 h h' rest]
    · simp [paramsItems, Parameter.item] at same
  | ⟨name, type, some value⟩ :: params => by
    intro params' names names' h h' same
    rcases params' with _ | ⟨⟨name', type', _ | value'⟩, params'⟩
    · cases same
    · simp [paramsItems, Parameter.item] at same
    · obtain ⟨first, rest⟩ := List.cons.inj same
      obtain ⟨typed, values⟩ := Item.pair.inj first
      rw [List.forall_mem_cons] at names names'
      obtain ⟨rfl, rfl⟩ := typed_cancel names.1 names'.1 typed
      simp only [paramsRelabel, paramsShown, Parameter.shown, Parameter.shown, valueShown,
        valueShown, Expr.shown_eq value value' h.1 h'.1 values,
        paramsShown_eq params params' names.2 names'.2 h.2 h'.2 rest]

end

end TwoScript
