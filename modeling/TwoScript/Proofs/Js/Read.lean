import TwoScript.Proofs.Js.Token
import TwoScript.Tree.Operator

/-!
# Reading JavaScript expressions

A reader for JavaScript expressions, by JavaScript's own operator rules: binary operators
of one level group to the left, assignment groups to the right and binds loosest, operators
in front of an operand bind tighter than those between two, and calls and members bind
tightest. Bodies of functions and templates are not looked into.

The reader keeps what is not yet complete on a stack of frames. `Reads` says what the tokens
of an expression do to every stack: they leave the expression on it, possibly in pieces that
the next looser operator puts together.
-/

namespace TwoScript

namespace Js

/-- An expression of JavaScript. Functions have no parameters. -/
inductive Term where
  | literal (value : Literal)
  | name (name : String)
  | function (async : Bool) (body : String)
  | template (text : String)
  | unary (op : UnaryOp) (operand : Term)
  | await (operand : Term)
  | binary (op : BinaryOp) (left right : Term)
  | assign (op : AssignOp) (target value : Term)
  | call (callee : Term) (args : List Term)
  | member (object : Term) (property : String)
deriving Repr

def Term.isAssignable : Term → Bool
  | name _ | member _ _ => true
  | _ => false

/-! ## Operators -/

/-- The levels of binary operators, the loosest first. -/
def levels : List (List BinaryOp) :=
  [[.or], [.and], [.bitOr], [.bitXor], [.bitAnd], [.equal, .notEqual],
   [.less, .lessEqual, .greater, .greaterEqual], [.shiftLeft, .shiftRight],
   [.add, .subtract], [.multiply, .divide, .modulo]]

/-- How tightly a binary operator binds. Brackets and assignment bind with strength zero. -/
def tightness (op : BinaryOp) : Nat :=
  levels.findIdx (·.contains op) + 1

def prefixTightness : Nat := levels.length + 1

def postfixTightness : Nat := prefixTightness + 1

def binaryOp? : String → Option BinaryOp
  | "||" => some .or
  | "&&" => some .and
  | "|" => some .bitOr
  | "^" => some .bitXor
  | "&" => some .bitAnd
  | "==" => some .equal
  | "!=" => some .notEqual
  | "<" => some .less
  | "<=" => some .lessEqual
  | ">" => some .greater
  | ">=" => some .greaterEqual
  | "<<" => some .shiftLeft
  | ">>" => some .shiftRight
  | "+" => some .add
  | "-" => some .subtract
  | "*" => some .multiply
  | "/" => some .divide
  | "%" => some .modulo
  | _ => none

def assignOp? : String → Option AssignOp
  | "=" => some .assign
  | "+=" => some .addAssign
  | "-=" => some .subtractAssign
  | "*=" => some .multiplyAssign
  | "/=" => some .divideAssign
  | "%=" => some .moduloAssign
  | _ => none

def unaryOp? : String → Option UnaryOp
  | "!" => some .not
  | "-" => some .negate
  | "~" => some .bitNot
  | _ => none

/-- The words that are no names. The words `this` and `super` stand for values like a name. -/
def keywords : List String :=
  ["await", "break", "case", "catch", "class", "const", "continue", "debugger", "default",
   "delete", "do", "else", "enum", "export", "extends", "false", "finally", "for", "function",
   "if", "implements", "import", "in", "instanceof", "interface", "let", "new", "null",
   "package", "private", "protected", "public", "return", "static", "switch", "throw", "true",
   "try", "typeof", "var", "void", "while", "with", "yield"]

/-! ## The reader -/

/-- What is begun and waits for a term: an opening parenthesis, a call with the arguments in
front of the next one, or an operator with the operand in front of it. -/
inductive Frame where
  | opened
  | calling (callee : Term) (args : List Term)
  | unary (op : UnaryOp)
  | await
  | binary (op : BinaryOp) (left : Term)
  | assign (op : AssignOp) (target : Term)

/-- How tightly a term has to bind that stands on these frames, the innermost first. -/
def bound : List Frame → Nat
  | .unary _ :: _ | .await :: _ => prefixTightness
  | .binary op _ :: _ => tightness op + 1
  | _ => 0

/-- Completes the frames that bind at least as tightly as what comes next. -/
def unwind (strength : Nat) : List Frame → Term → List Frame × Term
  | .unary op :: frames, t => unwind strength frames (.unary op t)
  | .await :: frames, t => unwind strength frames (.await t)
  | .binary op left :: frames, t =>
    if strength ≤ tightness op then unwind strength frames (.binary op left t)
    else (.binary op left :: frames, t)
  | .assign op target :: frames, t =>
    if strength = 0 then unwind strength frames (.assign op target t)
    else (.assign op target :: frames, t)
  | frames, t => (frames, t)

/-- The state of the reader: in front of a term, behind one, behind the dot of a member, or
inside the head of a function. Behind the body of a function no operator can follow. -/
inductive State where
  | ready (frames : List Frame)
  | done (frames : List Frame) (term : Term)
  | dotted (frames : List Frame) (object : Term)
  | async (frames : List Frame)
  | asyncOpened (frames : List Frame)
  | params (async : Bool) (frames : List Frame)
  | arrow (async : Bool) (frames : List Frame)
  | body (frames : List Frame) (term : Term)

namespace State

def close (frames : List Frame) (t : Term) : Option State :=
  match unwind 0 frames t with
  | (.opened :: outer, u) => some (done outer u)
  | (.calling callee args :: outer, u) => some (done outer (.call callee (args ++ [u])))
  | _ => none

def separate (frames : List Frame) (t : Term) : Option State :=
  match unwind 0 frames t with
  | (.calling callee args :: outer, u) => some (ready (.calling callee (args ++ [u]) :: outer))
  | _ => none

/-- A closing parenthesis where a term could stand: there is no argument, or no parameter. -/
def closeEmpty : List Frame → Option State
  | .calling callee [] :: outer => some (done outer (.call callee []))
  | .opened :: outer => if bound outer = 0 then some (params false outer) else none
  | _ => none

def word (frames : List Frame) (w : String) : Option State :=
  if w = "await" then some (ready (.await :: frames))
  else if w = "async" then if bound frames = 0 then some (async frames) else none
  else if w = "true" then some (done frames (.literal (.boolean true)))
  else if w = "false" then some (done frames (.literal (.boolean false)))
  else if w = "null" then some (done frames (.literal .null))
  else if keywords.contains w then none
  else some (done frames (.name w))

def begin (frames : List Frame) : Token → Option State
  | .number x => some (done frames (.literal (.number x)))
  | .string s => some (done frames (.literal (.string s)))
  | .template text => some (done frames (.template text))
  | .word w => word frames w
  | .mark m =>
    if m = "(" then some (ready (.opened :: frames))
    else if m = ")" then closeEmpty frames
    else (unaryOp? m).map fun op => ready (.unary op :: frames)
  | .block _ | .invalid => none

def proceed (frames : List Frame) (t : Term) (m : String) : Option State :=
  if m = "(" then some (ready (.calling t [] :: frames))
  else if m = "." then some (dotted frames t)
  else if m = ")" then close frames t
  else if m = "," then separate frames t
  else
    match binaryOp? m with
    | some op =>
      let outer := unwind (tightness op) frames t
      some (ready (.binary op outer.2 :: outer.1))
    | none =>
      (assignOp? m).bind fun op =>
        if t.isAssignable ∧ bound frames = 0 then some (ready (.assign op t :: frames)) else none

def step : State → Token → Option State
  | ready frames, t => begin frames t
  | done frames u, .mark m => proceed frames u m
  | dotted frames u, .word w => some (done frames (.member u w))
  | async frames, .mark m => if m = "(" then some (asyncOpened frames) else none
  | asyncOpened frames, .mark m => if m = ")" then some (params true frames) else none
  | params a frames, .mark m => if m = "=>" then some (arrow a frames) else none
  | arrow a frames, .block text => some (body frames (.function a text))
  | body frames u, .mark m =>
    if m = ")" then close frames u else if m = "," then separate frames u else none
  | _, _ => none

def run (s : State) : List Token → Option State
  | [] => some s
  | t :: ts => (s.step t).bind (·.run ts)

def result : State → Option Term
  | done frames t | body frames t =>
    match unwind 0 frames t with
    | ([], u) => some u
    | _ => none
  | _ => none

theorem run_append (s : State) (ts us : List Token) :
    s.run (ts ++ us) = (s.run ts).bind (·.run us) := by
  induction ts generalizing s with
  | nil => rfl
  | cons t ts ih =>
      simp only [List.cons_append, run, Option.bind_assoc]
      congr
      funext u
      exact ih u

/-- A word that no rule takes out is a name. -/
theorem word_of_not_mem {w : String} (h : w ∉ "async" :: keywords) (frames : List Frame) :
    word frames w = some (done frames (.name w)) := by
  have other : ∀ k ∈ "async" :: keywords, w ≠ k := by
    intro k hk same
    rw [same] at h
    exact h hk
  have free : ¬keywords.contains w = true := by
    rw [List.contains_iff_mem]
    exact fun found => h (List.mem_cons_of_mem _ found)
  rw [word, if_neg (other _ (by decide)), if_neg (other _ (by decide)),
    if_neg (other _ (by decide)), if_neg (other _ (by decide)), if_neg (other _ (by decide)),
    if_neg free]

theorem begin_unary (op : UnaryOp) (frames : List Frame) :
    begin frames (.mark op.symbol) = some (ready (.unary op :: frames)) := by
  cases op <;> rfl

theorem proceed_binary (op : BinaryOp) (frames : List Frame) (t : Term) :
    proceed frames t op.symbol =
      some (ready (.binary op (unwind (tightness op) frames t).2
        :: (unwind (tightness op) frames t).1)) := by
  cases op <;> rfl

theorem proceed_assign (op : AssignOp) {frames : List Frame} {t : Term}
    (assignable : t.isAssignable = true) (free : bound frames = 0) :
    proceed frames t op.symbol = some (ready (.assign op t :: frames)) := by
  have allowed : (if t.isAssignable ∧ bound frames = 0 then
      some (ready (.assign op t :: frames)) else none) = some (ready (.assign op t :: frames)) :=
    if_pos ⟨assignable, free⟩
  cases op <;> exact allowed

end State

def read (text : String) : Option Term :=
  (State.run (.ready []) (tokens text.toList)).bind State.result

/-! ## What the tokens of an expression do -/

def calledTokens (text : String) : List Token :=
  [.mark "(", .mark ")", .mark "=>", .block text, .mark ")", .mark "(", .mark ")"]

/-- The tokens bring a term that binds with the given strength onto every stack that takes
it. What is left of it on top is put together when something no tighter comes. -/
def Reads (strength : Nat) (t : Term) (ts : List Token) : Prop :=
  ∀ frames, bound frames ≤ strength → ∃ left u,
    State.run (.ready frames) ts = some (.done left u) ∧
      (∀ p ≤ strength, unwind p left u = unwind p frames t) ∧
      (strength = postfixTightness → left = frames ∧ u = t)

theorem tightness_pos (op : BinaryOp) : 0 < tightness op := Nat.succ_pos _

theorem tightness_lt (op : BinaryOp) : tightness op < prefixTightness := by
  cases op <;> decide

/-- Frames that take a looser term are not completed by an operator in front of it. -/
theorem unwind_of_bound {frames : List Frame} {op : BinaryOp} (t : Term)
    (h : bound frames ≤ tightness op) : unwind (tightness op) frames t = (frames, t) := by
  have positive := tightness_pos op
  have loose := tightness_lt op
  cases frames with
  | nil => rfl
  | cons frame frames =>
      cases frame with
      | opened => rfl
      | calling callee args => rfl
      | unary _ => exact absurd h (Nat.not_le.mpr loose)
      | await => exact absurd h (Nat.not_le.mpr loose)
      | binary op' left =>
          have tighter : ¬tightness op ≤ tightness op' := Nat.not_le.mpr h
          rw [unwind, if_neg tighter]
      | assign op' target => rw [unwind, if_neg (by omega)]

namespace Reads

variable {k m : Nat} {t u : Term} {ts us : List Token}

/-- A token that is a whole term. -/
theorem leaf {token : Token} (h : ∀ frames, State.begin frames token = some (.done frames t)) :
    Reads postfixTightness t [token] := by
  intro frames _
  refine ⟨frames, t, ?_, fun _ _ => rfl, fun _ => ⟨rfl, rfl⟩⟩
  rw [State.run, State.step, h]
  rfl

/-- A term that is complete is read where it stands. -/
theorem complete (h : ∀ frames, State.run (.ready frames) ts = some (.done frames t)) :
    Reads postfixTightness t ts :=
  fun frames _ => ⟨frames, t, h frames, fun _ _ => rfl, fun _ => ⟨rfl, rfl⟩⟩

theorem run_ready (h : Reads postfixTightness t ts) (frames : List Frame)
    (fits : bound frames ≤ postfixTightness) :
    State.run (.ready frames) ts = some (.done frames t) := by
  obtain ⟨left, u, ran, _, same⟩ := h frames fits
  obtain ⟨rfl, rfl⟩ := same rfl
  exact ran

theorem bound_le (frames : List Frame) : bound frames ≤ postfixTightness := by
  unfold bound
  split
  · exact Nat.le_succ _
  · exact Nat.le_succ _
  · exact Nat.le_trans (tightness_lt _) (Nat.le_succ _)
  · exact Nat.zero_le _

theorem parenthesized (h : Reads k t ts) :
    Reads postfixTightness t (.mark "(" :: (ts ++ [.mark ")"])) := by
  apply complete
  intro frames
  obtain ⟨left, u, ran, rest, _⟩ := h (.opened :: frames) (Nat.zero_le k)
  have opening : State.step (.ready frames) (.mark "(") = some (.ready (.opened :: frames)) := rfl
  have closing : State.step (.done left u) (.mark ")") = some (.done frames t) := by
    show State.close left u = _
    rw [State.close, rest 0 (Nat.zero_le k)]
    rfl
  rw [State.run, opening, Option.bind_some, State.run_append, ran, Option.bind_some, State.run,
    closing]
  rfl

theorem binary {op : BinaryOp} (left : Reads k t ts) (right : Reads m u us)
    (first : tightness op ≤ k) (second : tightness op < m) :
    Reads (tightness op) (.binary op t u) (ts ++ .mark op.symbol :: us) := by
  intro frames fits
  obtain ⟨F, v, ran, rest, _⟩ := left frames (Nat.le_trans fits first)
  -- The operator completes the left operand and nothing below it.
  have whole : unwind (tightness op) F v = (frames, t) := by
    rw [rest _ first, unwind_of_bound t fits]
  have between : State.step (.done F v) (.mark op.symbol) =
      some (.ready (.binary op t :: frames)) := by
    rw [State.step, State.proceed_binary, whole]
  obtain ⟨G, w, behind, later, _⟩ := right (.binary op t :: frames) second
  refine ⟨G, w, ?_, ?_, ?_⟩
  · rw [State.run_append, ran, Option.bind_some, State.run, between, Option.bind_some, behind]
  · intro p low
    rw [later p (by omega), unwind, if_pos low]
  · have := tightness_lt op
    unfold postfixTightness
    omega

theorem unary {op : UnaryOp} (h : Reads k t ts) (tight : prefixTightness ≤ k) :
    Reads prefixTightness (.unary op t) (.mark op.symbol :: ts) := by
  intro frames _
  obtain ⟨F, v, ran, rest, _⟩ := h (.unary op :: frames) tight
  refine ⟨F, v, ?_, fun p low => ?_, fun impossible => ?_⟩
  · rw [State.run, State.step, State.begin_unary, Option.bind_some, ran]
  · rw [rest p (by omega), unwind]
  · cases impossible

theorem await (h : Reads k t ts) (tight : prefixTightness ≤ k) :
    Reads prefixTightness (.await t) (.word "await" :: ts) := by
  intro frames _
  obtain ⟨F, v, ran, rest, _⟩ := h (.await :: frames) tight
  have first : State.step (.ready frames) (.word "await") =
      some (.ready (.await :: frames)) := rfl
  refine ⟨F, v, ?_, fun p low => ?_, fun impossible => ?_⟩
  · rw [State.run, first, Option.bind_some, ran]
  · rw [rest p (by omega), unwind]
  · cases impossible

theorem assign {op : AssignOp} (target : Reads postfixTightness t ts) (value : Reads k u us)
    (assignable : t.isAssignable = true) :
    Reads 0 (.assign op t u) (ts ++ .mark op.symbol :: us) := by
  intro frames fits
  have free : bound frames = 0 := Nat.le_zero.mp fits
  obtain ⟨F, v, ran, rest, _⟩ := value (.assign op t :: frames) (Nat.zero_le k)
  refine ⟨F, v, ?_, fun p low => ?_, fun impossible => ?_⟩
  · rw [State.run_append, target.run_ready frames (bound_le frames), Option.bind_some, State.run,
      State.step, State.proceed_assign op assignable free, Option.bind_some, ran]
  · rw [Nat.le_zero.mp low, rest 0 (Nat.zero_le k), unwind, if_pos rfl]
  · cases impossible

theorem member (h : Reads postfixTightness t ts) (property : String) :
    Reads postfixTightness (.member t property) (ts ++ [Token.mark ".", .word property]) := by
  apply complete
  intro frames
  rw [State.run_append, h.run_ready frames (bound_le frames)]
  rfl

/-- The tokens of arguments complete every call that they stand in, behind other arguments
too if there are any. -/
def Arguments (args : List Term) (ts : List Token) : Prop :=
  ∀ frames callee before, (args = [] → before = []) →
    State.run (.ready (.calling callee before :: frames)) (ts ++ [.mark ")"]) =
      some (.done frames (.call callee (before ++ args)))

theorem noArguments : Arguments [] [] := by
  intro frames callee before none
  rw [none rfl]
  rfl

theorem lastArgument (h : Reads k t ts) : Arguments [t] ts := by
  intro frames callee before _
  obtain ⟨F, v, ran, rest, _⟩ := h (.calling callee before :: frames) (Nat.zero_le k)
  have closing : State.step (.done F v) (.mark ")") =
      some (.done frames (.call callee (before ++ [t]))) := by
    show State.close F v = _
    rw [State.close, rest 0 (Nat.zero_le k)]
    rfl
  rw [State.run_append, ran, Option.bind_some, State.run, closing]
  rfl

theorem nextArgument {args : List Term} (h : Reads k t ts) (more : Arguments (u :: args) us) :
    Arguments (t :: u :: args) (ts ++ .mark "," :: us) := by
  intro frames callee before _
  obtain ⟨F, v, ran, rest, _⟩ := h (.calling callee before :: frames) (Nat.zero_le k)
  have comma : State.step (.done F v) (.mark ",") =
      some (.ready (.calling callee (before ++ [t]) :: frames)) := by
    show State.separate F v = _
    rw [State.separate, rest 0 (Nat.zero_le k)]
    rfl
  rw [List.append_assoc, State.run_append, ran, Option.bind_some, List.cons_append, State.run,
    comma, Option.bind_some, more _ _ _ (by simp), List.append_assoc]
  rfl

theorem call {args : List Term} (h : Reads postfixTightness t ts) (inside : Arguments args us) :
    Reads postfixTightness (.call t args) (ts ++ .mark "(" :: (us ++ [.mark ")"])) := by
  apply complete
  intro frames
  have opening : State.step (.done frames t) (.mark "(") =
      some (.ready (.calling t [] :: frames)) := rfl
  rw [State.run_append, h.run_ready frames (bound_le frames), Option.bind_some, State.run, opening,
    Option.bind_some, inside _ _ _ fun _ => rfl, List.nil_append]

/-- A function without parameters, between parentheses and called at once. -/
theorem calledFunction (async : Bool) (text : String) :
    Reads postfixTightness (.call (.function async text) [])
      (.mark "(" :: (if async then .word "async" :: calledTokens text else calledTokens text)) := by
  apply complete
  intro frames
  cases async <;> rfl

/-- What is read on an empty stack is the result. -/
theorem result (h : Reads k t ts) : (State.run (.ready []) ts).bind State.result = some t := by
  obtain ⟨F, v, ran, rest, _⟩ := h [] (Nat.zero_le k)
  rw [ran, Option.bind_some, State.result, rest 0 (Nat.zero_le k)]
  rfl

end Reads

end Js

end TwoScript
