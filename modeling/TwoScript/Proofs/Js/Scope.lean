import TwoScript.Proofs.Js.Atoms

/-!
# Functions around an await

JavaScript is read for the function that every `await` belongs to: the innermost one around
it. A function or a method owns its parameters and its body, an arrow function its body. An
arrow function is plain if it is not marked as async, and `await` may not belong to it.
`Keeps` says that no `await` of some atoms belongs to a plain arrow function, in any place
that is allowed, and atoms compose. `Safe` says the same about texts.
-/

namespace TwoScript

namespace Js

inductive Scope where
  | block
  | members
  | params
  | body
  | arrow (async : Bool)
deriving DecidableEq, Repr

namespace Scope

/-- Whether an `await` in the scope belongs to it. -/
def isFunction : Scope → Bool
  | params | body | arrow _ => true
  | block | members => false

/-- The scope is not the body of a plain arrow function. -/
def Mild (s : Scope) : Prop :=
  s ≠ arrow false

def owner? (scopes : List Scope) : Option Scope :=
  scopes.find? isFunction

end Scope

def isOpening (c : Char) : Bool :=
  c == '(' || c == '[' || c == '{'

namespace Atom

def namedBy (keyword : String) : List Atom → Bool
  | word _ :: word k :: _ => k == keyword.toList
  | _ => false

/-- What stands in front of the body of an arrow function, the last first. -/
def arrow : List Atom :=
  [sign '>', sign '=']

def asyncArrow : List Atom :=
  [sign '>', sign '=', sign ')', sign '(', word "async".toList]

end Atom

/-- The scopes that are open, the innermost first, what was read before, the scope that the
last atom has closed, and for every `await` so far the function that it belongs to. -/
structure Reader where
  scopes : List Scope
  recent : List Atom
  closed : Option Scope
  owners : List (Option Scope)
deriving DecidableEq, Repr

namespace Reader

def start : Reader := ⟨[], [], none, []⟩

def opened (r : Reader) (c : Char) : Scope :=
  if c = '(' then
    if r.scopes.head? = some .members ∨ Atom.namedBy "function" r.recent then .params else .block
  else if c = '{' then
    if r.closed = some .params then .body
    else if Atom.arrow.isPrefixOf r.recent then .arrow (Atom.asyncArrow.isPrefixOf r.recent)
    else if Atom.namedBy "class" r.recent then .members
    else .block
  else .block

/-- One atom further. A word behind a dot is a property and no keyword. -/
def step (r : Reader) : Atom → Reader
  | .word w => { r with
      recent := .word w :: r.recent
      closed := none
      owners :=
        if w = "await".toList ∧ r.recent.head? ≠ some (.sign '.') then
          r.owners ++ [Scope.owner? r.scopes]
        else r.owners }
  | .sign c =>
    if isOpening c then { r with
      scopes := r.opened c :: r.scopes
      recent := .sign c :: r.recent
      closed := none }
    else if isClosing c then { r with
      scopes := r.scopes.tail
      recent := .sign c :: r.recent
      closed := r.scopes.head? }
    else { r with recent := .sign c :: r.recent, closed := none }
  | .quoted => r

def run (r : Reader) (as : List Atom) : Reader :=
  as.foldl step r

@[simp] theorem run_nil (r : Reader) : r.run [] = r := rfl

@[simp] theorem run_cons (r : Reader) (x : Atom) (as : List Atom) :
    r.run (x :: as) = (r.step x).run as := rfl

theorem run_append (r : Reader) (as bs : List Atom) : r.run (as ++ bs) = (r.run as).run bs :=
  List.foldl_append

theorem step_of_isOpening {r : Reader} {c : Char} (h : isOpening c = true) : r.step (.sign c) =
    ⟨r.opened c :: r.scopes, .sign c :: r.recent, none, r.owners⟩ := by
  simp [step, h]

theorem step_of_isClosing {r : Reader} {c : Char} (h : isClosing c = true) : r.step (.sign c) =
    ⟨r.scopes.tail, .sign c :: r.recent, r.scopes.head?, r.owners⟩ := by
  have other : isOpening c = false := by
    simp only [isClosing, Bool.or_eq_true, beq_iff_eq] at h
    rcases h with (rfl | rfl) | rfl <;> rfl
  simp [step, h, other]

theorem step_of_not {r : Reader} {c : Char} (opening : ¬isOpening c = true)
    (closing : ¬isClosing c = true) :
    r.step (.sign c) = ⟨r.scopes, .sign c :: r.recent, none, r.owners⟩ := by
  simp [step, opening, closing]

end Reader

/-- The functions that the `await`s of a text belong to, in the order of the text, if the text
can be cut into atoms. -/
def awaitOwners (text : String) : Option (List (Option Scope)) :=
  (Splitter.start.run text.toList).map fun last =>
    (Reader.start.run (last.2 ++ flush last.1.word)).owners

/-- An `await` in a plain arrow function is noticed, one in a function inside of it is not. -/
example : awaitOwners "(() => \x7b await a; function f() \x7b await b.await; \x7d \x7d)()" =
    some [some (.arrow false), some .body] := by
  decide +kernel

/-- The braces of an interpolation and of a class make no function. -/
example : awaitOwners ("(async () => \x7b `$\x7bawait a\x7d`; "
      ++ "class A \x7b async m(p = await b) \x7b await c; \x7d \x7d \x7d)()") =
    some [some (.arrow true), some .params, some .body] := by
  decide +kernel

/-! ## Places for an await -/

def Permits (wait : Bool) (scopes : List Scope) : Prop :=
  wait = true → Scope.owner? scopes ≠ some (.arrow false)

def InMembers (scopes : List Scope) : Prop :=
  scopes.head? = some .members

theorem Permits.append {wait : Bool} {opened rest : List Scope} (h : Permits wait rest)
    (mild : ∀ s ∈ opened, s.Mild) : Permits wait (opened ++ rest) := by
  intro waits plain
  rw [Scope.owner?, List.find?_append] at plain
  cases found : opened.find? Scope.isFunction with
  | none =>
      rw [found, Option.none_or] at plain
      exact h waits plain
  | some s =>
      rw [found, Option.some_or, Option.some.injEq] at plain
      exact mild s (List.mem_of_find?_eq_some found) plain

/-- A function that is not a plain arrow function permits everything in it. -/
theorem Permits.function {s : Scope} (function : s.isFunction = true) (mild : s.Mild)
    (wait : Bool) (rest : List Scope) : Permits wait (s :: rest) := by
  intro _ plain
  rw [Scope.owner?, List.find?_cons_of_pos function, Option.some.injEq] at plain
  exact mild plain

def Still (recent : List Atom) : Prop :=
  recent.head? ≠ some (.sign '>')

theorem Still.cons {x : Atom} (h : x ≠ .sign '>') (recent : List Atom) : Still (x :: recent) := by
  simpa [Still] using h

/-- How a text may end and another one begin: with any word under way, with none, or with none
and no arrow in front. -/
inductive Edge where
  | loose
  | fresh
  | still
deriving DecidableEq

namespace Edge

def Word : Edge → List Char → Prop
  | loose => Loose
  | fresh | still => Fresh

def Recent (e : Edge) (recent : List Atom) : Prop :=
  e = still → Still recent

def strength : Edge → Nat
  | loose => 0
  | fresh => 1
  | still => 2

theorem Word.mono {e f : Edge} (weaker : e.strength ≤ f.strength) {word : List Char}
    (h : f.Word word) : e.Word word := by
  cases e with
  | loose => trivial
  | fresh | still =>
      cases f with
      | loose => cases weaker
      | fresh | still => exact h

theorem Recent.mono {e f : Edge} (weaker : e.strength ≤ f.strength) {recent : List Atom}
    (h : f.Recent recent) : e.Recent recent := by
  rintro rfl
  cases f with
  | loose | fresh => simp [strength] at weaker
  | still => exact h rfl

end Edge

namespace Reader

/-- Above the scopes `rest` there are `depth` more, none of them the body of a plain arrow
function, and the atoms before are as the edge says. -/
def Above (r : Reader) (e : Edge) (depth : Nat) (rest : List Scope) : Prop :=
  e.Recent r.recent ∧
    ∃ opened, r.scopes = opened ++ rest ∧ opened.length = depth ∧ ∀ s ∈ opened, s.Mild

theorem above_zero {r : Reader} {e : Edge} {rest : List Scope} :
    r.Above e 0 rest ↔ e.Recent r.recent ∧ r.scopes = rest := by
  constructor
  · rintro ⟨recent, opened, scopes, length, -⟩
    obtain rfl : opened = [] := List.length_eq_zero_iff.mp length
    exact ⟨recent, scopes⟩
  · rintro ⟨recent, scopes⟩
    exact ⟨recent, [], scopes, rfl, by simp⟩

/-- What the second reader has found behind the first one belongs to no plain arrow function. -/
def Adds (r t : Reader) : Prop :=
  ∃ added, t.owners = r.owners ++ added ∧ some (.arrow false) ∉ added

theorem Adds.of_eq {r t : Reader} (h : t.owners = r.owners) : r.Adds t :=
  ⟨[], by simp [h], by simp⟩

theorem Adds.trans {r t u : Reader} (first : r.Adds t) (second : t.Adds u) : r.Adds u := by
  obtain ⟨added, owners, none⟩ := first
  obtain ⟨added', owners', none'⟩ := second
  refine ⟨added ++ added', ?_, ?_⟩
  · rw [owners', owners, List.append_assoc]
  · rw [List.mem_append, not_or]
    exact ⟨none, none'⟩

end Reader

/-- The atoms close the last `before` scopes and leave `after` scopes open, none of them the
body of a plain arrow function, and no `await` among the atoms belongs to such a function. The
scopes below are as `allowed` says and stay as they are. -/
def Keeps (allowed : List Scope → Prop) (e e' : Edge) (before after : Nat) (as : List Atom) :
    Prop :=
  ∀ (r : Reader) (rest : List Scope), r.Above e before rest → allowed rest →
    (r.run as).Above e' after rest ∧ r.Adds (r.run as)

namespace Keeps

variable {allowed : List Scope → Prop} {e e' e'' : Edge} {a b d : Nat} {as bs : List Atom}
  {wait : Bool}

theorem nil : Keeps allowed e e a a [] :=
  fun _ _ above _ => ⟨above, .of_eq rfl⟩

theorem append (first : Keeps allowed e e' a b as) (second : Keeps allowed e' e'' b d bs) :
    Keeps allowed e e'' a d (as ++ bs) := by
  intro r rest above ok
  obtain ⟨between, found⟩ := first r rest above ok
  obtain ⟨behind, found'⟩ := second (r.run as) rest between ok
  rw [Reader.run_append]
  exact ⟨behind, found.trans found'⟩

theorem imp {allowed' : List Scope → Prop} (h : Keeps allowed e e' a b as)
    (weaker : ∀ scopes, allowed' scopes → allowed scopes) : Keeps allowed' e e' a b as :=
  fun r rest above ok => h r rest above (weaker rest ok)

theorem relax {f f' : Edge} (h : Keeps allowed e e' a b as) (front : e.strength ≤ f.strength)
    (back : f'.strength ≤ e'.strength) : Keeps allowed f f' a b as := by
  intro r rest above ok
  obtain ⟨⟨recent, opened⟩, found⟩ := h r rest ⟨above.1.mono front, above.2⟩ ok
  exact ⟨⟨recent.mono back, opened⟩, found⟩

/-- Atoms that open and close nothing around them. -/
theorem balanced_iff : Keeps allowed e e' 0 0 as ↔ ∀ r : Reader, allowed r.scopes →
    e.Recent r.recent → (r.run as).scopes = r.scopes ∧ e'.Recent (r.run as).recent ∧
      r.Adds (r.run as) := by
  constructor
  · intro h r ok recent
    obtain ⟨above, found⟩ := h r r.scopes (Reader.above_zero.mpr ⟨recent, rfl⟩) ok
    obtain ⟨recent', scopes⟩ := Reader.above_zero.mp above
    exact ⟨scopes, recent', found⟩
  · intro h r rest above ok
    obtain ⟨recent, rfl⟩ := Reader.above_zero.mp above
    obtain ⟨scopes, recent', found⟩ := h r ok recent
    exact ⟨Reader.above_zero.mpr ⟨recent', scopes⟩, found⟩

/-- Scopes that permit an `await` may be opened around the atoms. -/
theorem within (h : Keeps (Permits wait) e e' 0 0 as) (n : Nat) :
    Keeps (Permits wait) e e' n n as := by
  rintro r rest ⟨recent, opened, scopes, length, mild⟩ ok
  have permitted : Permits wait r.scopes := by
    rw [scopes]
    exact ok.append mild
  obtain ⟨scopes', recent', found⟩ := balanced_iff.mp h r permitted recent
  exact ⟨⟨recent', opened, scopes'.trans scopes, length, mild⟩, found⟩

end Keeps

/-! ## Fixed atoms -/

theorem Still.not_arrow {recent : List Atom} (h : Still recent) :
    Atom.arrow.isPrefixOf recent = false := by
  cases recent with
  | nil => rfl
  | cons x xs =>
      have other : (Atom.sign '>' == x) = false := by
        rw [beq_eq_false_iff_ne]
        rintro rfl
        exact h rfl
      simp [Atom.arrow, List.isPrefixOf, other]

/-- Only a brace behind an arrow opens the body of an arrow function. -/
theorem Reader.opened_mild {r : Reader} {c : Char} (h : c = '{' → Still r.recent) :
    (r.opened c).Mild := by
  unfold Reader.opened
  by_cases paren : c = '('
  · rw [if_pos paren]
    split <;> simp [Scope.Mild]
  · rw [if_neg paren]
    by_cases brace : c = '{'
    · have plain := (h brace).not_arrow
      simp only [brace, plain, if_true, Bool.false_eq_true, if_false]
      split
      · simp [Scope.Mild]
      · split <;> simp [Scope.Mild]
    · rw [if_neg brace]
      simp [Scope.Mild]

/-- The number of open scopes behind an atom and how the text may go on there, for atoms other
than `await`. A brace may not stand behind an arrow. -/
def tameStep (depth : Nat) (e : Edge) : Atom → Option (Nat × Edge)
  | .word w => if w = "await".toList then none else some (depth, .still)
  | .sign c =>
    if isOpening c then
      if c = '{' ∧ e ≠ .still then none else some (depth + 1, .still)
    else if isClosing c then if depth = 0 then none else some (depth - 1, .still)
    else some (depth, if c = '>' then .loose else .still)
  | .quoted => some (depth, e)

def tame (depth : Nat) (e : Edge) : List Atom → Option (Nat × Edge)
  | [] => some (depth, e)
  | x :: as => (tameStep depth e x).bind fun next => tame next.1 next.2 as

namespace Reader

variable {r : Reader} {e e' : Edge} {depth depth' : Nat} {rest : List Scope}

theorem Above.step_opening {c : Char} (above : r.Above e depth rest) (opens : isOpening c = true)
    (inner : (r.opened c).Mild) : (r.step (.sign c)).Above .still (depth + 1) rest := by
  obtain ⟨_, opened, scopes, length, mild⟩ := above
  have arrow : c ≠ '>' := by
    rintro rfl
    cases opens
  rw [step_of_isOpening opens]
  refine ⟨fun _ => .cons (by simpa using arrow) _, r.opened c :: opened, ?_, ?_, ?_⟩
  · rw [scopes, List.cons_append]
  · rw [List.length_cons, length]
  · exact List.forall_mem_cons.mpr ⟨inner, mild⟩

theorem Above.step_closing {c : Char} (above : r.Above e depth rest) (closes : isClosing c = true)
    (inside : depth ≠ 0) : (r.step (.sign c)).Above .still (depth - 1) rest := by
  obtain ⟨_, opened, scopes, length, mild⟩ := above
  have arrow : c ≠ '>' := by
    rintro rfl
    cases closes
  obtain ⟨s, opened, rfl⟩ : ∃ s rest, opened = s :: rest := by
    apply List.exists_cons_of_ne_nil
    rintro rfl
    exact inside length.symm
  rw [step_of_isClosing closes]
  refine ⟨fun _ => .cons (by simpa using arrow) _, opened, ?_, ?_, ?_⟩
  · rw [scopes, List.cons_append, List.tail_cons]
  · rw [← length, List.length_cons, Nat.add_sub_cancel]
  · exact fun t ht => mild t (List.mem_cons_of_mem _ ht)

theorem Above.step {x : Atom} (above : r.Above e depth rest)
    (h : tameStep depth e x = some (depth', e')) :
    (r.step x).Above e' depth' rest ∧ (r.step x).owners = r.owners := by
  cases x with
  | quoted =>
      cases h
      exact ⟨above, rfl⟩
  | word w =>
      rw [tameStep] at h
      split at h
      · cases h
      · rename_i other
        cases h
        exact ⟨⟨fun _ => .cons (by simp) _, above.2⟩, if_neg fun waits => other waits.1⟩
  | sign c =>
      rw [tameStep] at h
      by_cases opens : isOpening c = true
      · rw [if_pos opens] at h
        split at h
        · cases h
        · rename_i free
          cases h
          have inner : (r.opened c).Mild :=
            opened_mild fun brace => above.1 (by simpa [brace] using free)
          exact ⟨above.step_opening opens inner, by rw [step_of_isOpening opens]⟩
      · rw [if_neg opens] at h
        by_cases closes : isClosing c = true
        · rw [if_pos closes] at h
          split at h
          · cases h
          · rename_i inside
            cases h
            exact ⟨above.step_closing closes inside, by rw [step_of_isClosing closes]⟩
        · rw [if_neg closes] at h
          rw [step_of_not opens closes]
          cases h
          refine ⟨⟨fun still => .cons ?_ _, above.2⟩, rfl⟩
          rintro ⟨⟩
          cases still

theorem Above.run {as : List Atom} (above : r.Above e depth rest)
    (h : tame depth e as = some (depth', e')) :
    (r.run as).Above e' depth' rest ∧ (r.run as).owners = r.owners := by
  induction as generalizing r depth e with
  | nil =>
      cases h
      exact ⟨above, rfl⟩
  | cons x as ih =>
      obtain ⟨next, first, later⟩ := Option.bind_eq_some_iff.mp h
      obtain ⟨above', same⟩ := above.step first
      obtain ⟨behind, owners⟩ := ih above' later
      exact ⟨behind, owners.trans same⟩

end Reader

namespace Keeps

variable {allowed : List Scope → Prop} {e e' f : Edge} {a b : Nat} {as bs : List Atom}
  {wait : Bool}

/-- What fixed atoms do is found by going over them once. -/
theorem of_tame (h : tame a e as = some (b, f)) (ends : e' = .still → f = .still) :
    Keeps allowed e e' a b as := by
  intro r rest above _
  obtain ⟨⟨recent, opened⟩, owners⟩ := above.run h
  exact ⟨⟨fun still => recent (ends still), opened⟩, .of_eq owners⟩

/-- The keyword stands where it is permitted. -/
theorem await : Keeps (Permits true) e e' 0 0 [.word "await".toList] := by
  rw [balanced_iff]
  intro r permitted _
  refine ⟨rfl, fun _ => .cons (by simp) _, ?_⟩
  by_cases property : r.recent.head? = some (.sign '.')
  · exact .of_eq (if_neg fun waits => waits.2 property)
  · refine ⟨[Scope.owner? r.scopes], if_pos ⟨rfl, property⟩, ?_⟩
    simpa [eq_comm] using permitted rfl

/-- A property may have any name. -/
theorem property (w : List Char) : Keeps allowed e e' 0 0 [.sign '.', .word w] := by
  rw [balanced_iff]
  intro r _ _
  exact ⟨rfl, fun _ => .cons (by simp) _, .of_eq (if_neg fun waits => waits.2 rfl)⟩

end Keeps

/-! ## Functions and classes -/

/-- Behind the atoms a bracket opens the parameters of a function. -/
def Heads (allowed : List Scope → Prop) (as : List Atom) : Prop :=
  ∀ r : Reader, allowed r.scopes → (r.run as).scopes = r.scopes ∧ (r.run as).owners = r.owners ∧
    (r.run as).opened '(' = .params

theorem Reader.owners_word {w : List Char} (h : w ≠ "await".toList) (r : Reader) :
    (r.step (.word w)).owners = r.owners :=
  if_neg fun waits => h waits.1

namespace Heads

variable {allowed : List Scope → Prop} {as : List Atom} {name : List Char}

/-- A keyword and a name begin a function. -/
theorem function (h : name ≠ "await".toList) :
    Heads allowed [.word "function".toList, .word name] := by
  intro r _
  have keyword : (r.step (.word "function".toList)).owners = r.owners :=
    Reader.owners_word (by decide) r
  refine ⟨rfl, (Reader.owners_word h _).trans keyword, ?_⟩
  exact (if_pos rfl).trans (if_pos (.inr rfl))

/-- In the body of a class a name begins a method. -/
theorem method (h : name ≠ "await".toList) : Heads InMembers [.word name] := by
  intro r inside
  refine ⟨rfl, Reader.owners_word h r, ?_⟩
  exact (if_pos rfl).trans (if_pos (.inl inside))

/-- The function may be marked as async. -/
theorem async (h : Heads allowed as) (marked : Bool) :
    Heads allowed ((if marked then [.word "async".toList] else []) ++ as) := by
  cases marked with
  | false => exact h
  | true =>
      intro r ok
      obtain ⟨scopes, owners, params⟩ := h (r.step (.word "async".toList)) ok
      exact ⟨scopes, owners, params⟩

end Heads

def callHead (awaits : Bool) : List Atom :=
  if awaits then [.word "await".toList, .sign '(', .word "async".toList, .sign '(', .sign ')',
    .sign '=', .sign '>', .sign '{']
  else [.sign '(', .sign '(', .sign ')', .sign '=', .sign '>', .sign '{']

namespace Keeps

variable {allowed : List Scope → Prop} {e e' : Edge} {front ps bs : List Atom}

/-- The parameters and the body of a function may wait for anything. -/
theorem routine (head : Heads allowed front) (params : Keeps (Permits true) .fresh .loose 0 0 ps)
    (body : Keeps (Permits true) .still .still 0 0 bs) :
    Keeps allowed e .still 0 0
      (front ++ .sign '(' :: (ps ++ .sign ')' :: .sign '{' :: (bs ++ [.sign '}']))) := by
  rw [balanced_iff] at params body ⊢
  intro r ok _
  obtain ⟨scopes, owners, opens⟩ := head r ok
  -- The reader in the parameters.
  let r₁ := (r.run front).step (.sign '(')
  have scopes₁ : r₁.scopes = .params :: r.scopes := by
    rw [← opens, ← scopes]
    rfl
  have permitted₁ : Permits true r₁.scopes := by
    rw [scopes₁]
    exact .function rfl (by simp [Scope.Mild]) _ _
  obtain ⟨scopes₂, -, found₂⟩ := params r₁ permitted₁ (by simp [Edge.Recent])
  -- The reader in the body.
  let r₃ := ((r₁.run ps).step (.sign ')')).step (.sign '{')
  have scopes₃ : r₃.scopes = .body :: r.scopes := by
    have closed : ((r₁.run ps).step (.sign ')')) = ⟨r.scopes, .sign ')' :: (r₁.run ps).recent,
        some .params, (r₁.run ps).owners⟩ := by
      rw [Reader.step_of_isClosing rfl, scopes₂, scopes₁]
      rfl
    simp only [r₃, closed]
    rfl
  have permitted₃ : Permits true r₃.scopes := by
    rw [scopes₃]
    exact .function rfl (by simp [Scope.Mild]) _ _
  obtain ⟨scopes₄, -, found₄⟩ := body r₃ permitted₃ fun _ => .cons (by decide) _
  have whole : r.run (front ++ .sign '(' :: (ps ++ .sign ')' :: .sign '{' ::
      (bs ++ [.sign '}']))) = (r₃.run bs).step (.sign '}') := by
    simp only [Reader.run_append, Reader.run_cons, Reader.run_nil, r₃, r₁]
  rw [whole, Reader.step_of_isClosing rfl]
  refine ⟨by rw [scopes₄, scopes₃]; rfl, fun _ => by simp [Still], ?_⟩
  have found : r.Adds r₁ := .of_eq owners
  have between : (r₁.run ps).Adds r₃ := .of_eq rfl
  exact ((found.trans found₂).trans between).trans (found₄.trans (.of_eq rfl))

/-- The methods of a class stand directly in its body. -/
theorem classBody {name : List Char} (other : name ≠ "await".toList)
    (h : Keeps InMembers .still .still 0 0 bs) : Keeps allowed e .still 0 0
      ([Atom.word "class".toList, .word name, .sign '{'] ++ (bs ++ [Atom.sign '}'])) := by
  rw [balanced_iff] at h ⊢
  intro r _ _
  let r₁ := r.run [.word "class".toList, .word name, .sign '{']
  have scopes₁ : r₁.scopes = .members :: r.scopes := rfl
  have found₁ : r.Adds r₁ := .of_eq (Reader.owners_word other _)
  obtain ⟨scopes₂, -, found₂⟩ := h r₁ (by rw [scopes₁]; rfl) fun _ => .cons (by decide) _
  rw [Reader.run_append, Reader.run_append, Reader.run_cons, Reader.step_of_isClosing rfl]
  refine ⟨?_, fun _ => by simp [Still], (found₁.trans found₂).trans (.of_eq rfl)⟩
  rw [Reader.run_nil, scopes₂, scopes₁]
  rfl

/-- The function that is called at once is plain if nothing in its body waits, and else it is
async and waited for. -/
theorem called {awaits : Bool} (h : Keeps (Permits awaits) .still e' 0 0 bs) :
    Keeps (Permits awaits) e .loose 0 0
      (callHead awaits ++ (bs ++ [.sign '}', .sign ')', .sign '(', .sign ')'])) := by
  rw [balanced_iff] at h ⊢
  intro r permitted _
  let r₁ := r.run (callHead awaits)
  obtain ⟨s, scopes₁⟩ : ∃ s, r₁.scopes = .arrow awaits :: s :: r.scopes := by
    cases awaits <;> exact ⟨_, rfl⟩
  have inner : Permits awaits r₁.scopes := by
    rw [scopes₁]
    cases awaits with
    | false => simp [Permits]
    | true => exact .function rfl (by simp [Scope.Mild]) _ _
  have found₁ : r.Adds r₁ := by
    cases awaits with
    | false => exact .of_eq rfl
    | true =>
        have keyword : Keeps (Permits true) .loose .loose 0 0 [.word "await".toList] := await
        exact (balanced_iff.mp keyword r permitted (by simp [Edge.Recent])).2.2
  obtain ⟨scopes₂, -, found₂⟩ := h r₁ inner fun _ => by
    cases awaits <;> exact .cons (by decide) _
  rw [Reader.run_append, Reader.run_append]
  refine ⟨?_, by simp [Edge.Recent], (found₁.trans found₂).trans (.of_eq rfl)⟩
  have closed : ((r₁.run bs).run [.sign '}', .sign ')', .sign '(', .sign ')']).scopes =
      (r₁.run bs).scopes.tail.tail := rfl
  rw [closed, scopes₂, scopes₁]
  rfl

end Keeps

/-! ## Texts -/

/-- The text closes the brackets `before` and leaves the brackets `after` open, and no `await` in
it belongs to a plain arrow function, wherever it stands as `allowed` says. -/
def Safe (allowed : List Scope → Prop) (e e' : Edge) (before after cs : List Char) : Prop :=
  ∃ as, Splits e.Word e'.Word before after as cs ∧
    Keeps allowed e e' before.length after.length as

abbrev SafeTerm (wait : Bool) (cs : List Char) : Prop :=
  Safe (Permits wait) .fresh .loose [] [] cs

abbrev SafeLines (wait : Bool) (before after cs : List Char) : Prop :=
  Safe (Permits wait) .still .still before after cs

/-- Whether a fixed text is safe everywhere, from one run over it. -/
def harmless (e e' : Edge) (before after cs : List Char) : Bool :=
  match Splitter.run ⟨⟨before.map .bracket ++ [Scanner.floor], none⟩, []⟩ cs with
  | none => false
  | some (⟨scanner, word⟩, as) =>
    scanner == ⟨after.map .bracket ++ [Scanner.floor], none⟩ && (e' == .loose || word == [])
      && (e != .loose || cs.head?.any fun c => !continuesWord c)
      && match tame before.length e (as ++ flush word) with
        | none => false
        | some (depth, f) => depth == after.length && (e' != .still || f == .still)

namespace Safe

variable {allowed : List Scope → Prop} {e e' e'' : Edge} {a b d cs ds : List Char} {wait : Bool}

theorem nil : Safe allowed e e a a [] :=
  ⟨[], .nil, .nil⟩

theorem append (first : Safe allowed e e' a b cs) (second : Safe allowed e' e'' b d ds) :
    Safe allowed e e'' a d (cs ++ ds) := by
  obtain ⟨as, cut, keeps⟩ := first
  obtain ⟨bs, cut', keeps'⟩ := second
  exact ⟨as ++ bs, cut.append cut', keeps.append keeps'⟩

theorem imp {allowed' : List Scope → Prop} (h : Safe allowed e e' a b cs)
    (weaker : ∀ scopes, allowed' scopes → allowed scopes) : Safe allowed' e e' a b cs := by
  obtain ⟨as, cut, keeps⟩ := h
  exact ⟨as, cut, keeps.imp weaker⟩

theorem relax {f f' : Edge} (h : Safe allowed e e' a b cs) (front : e.strength ≤ f.strength)
    (back : f'.strength ≤ e'.strength) : Safe allowed f f' a b cs := by
  obtain ⟨as, cut, keeps⟩ := h
  exact ⟨as, cut.imp (fun _ => .mono front) fun _ => .mono back, keeps.relax front back⟩

theorem within (h : Safe (Permits wait) e e' [] [] cs) (around : List Char) :
    Safe (Permits wait) e e' around around cs := by
  obtain ⟨as, cut, keeps⟩ := h
  exact ⟨as, cut.within around, keeps.within _⟩

theorem of_harmless (h : harmless e e' a b cs = true) : Safe allowed e e' a b cs := by
  unfold harmless at h
  split at h
  · cases h
  · rename_i scanner word as ran
    simp only [Bool.and_eq_true, Bool.or_eq_true, beq_iff_eq, bne_iff_ne] at h
    obtain ⟨⟨⟨rfl, ended⟩, begins⟩, counted⟩ := h
    split at counted
    · cases counted
    · rename_i depth f tamed
      simp only [Bool.and_eq_true, Bool.or_eq_true, beq_iff_eq, bne_iff_ne] at counted
      obtain ⟨rfl, ends⟩ := counted
      have behind : e'.Word word := by
        rcases ended with rfl | rfl
        · trivial
        · cases e' <;> trivial
      have cut := Splits.of_run ran behind
      refine ⟨as ++ flush word, ?_, .of_tame tamed fun edge => ?_⟩
      · cases e with
        | loose =>
            cases cs with
            | nil => simp at begins
            | cons c cs => exact cut.loosen (by simp) (WordStops.cons (by simpa using begins) _)
        | fresh | still => exact cut
      · exact ends.resolve_left (not_not_intro edge)

/-- A word other than the keyword. -/
theorem word (spelled : Splits Fresh Loose [] [] [.word cs] cs) (other : cs ≠ "await".toList) :
    Safe allowed .fresh .loose [] [] cs :=
  ⟨[.word cs], spelled, .of_tame (Option.bind_eq_some_iff.mpr ⟨_, if_neg other, rfl⟩) (by simp)⟩

theorem blanks (k : Nat) : Safe allowed .still .still [] [] (List.replicate k ' ') :=
  ⟨[], .blanks k, .nil⟩

theorem string (cs : List Char) : Safe allowed .fresh .loose [] [] (escapeString cs) := by
  refine ⟨[.sign '"'], (Splits.string cs).imp (fun _ => id) fun _ _ => trivial, ?_⟩
  exact .of_tame rfl (by simp)

theorem await : Safe (Permits true) .fresh .fresh [] [] "await ".toList := by
  have cut : Splits Fresh Fresh [] [] [.word "await".toList] "await ".toList :=
    .fixed rfl
  exact ⟨_, cut, .await⟩

theorem property (spelled : Splits Fresh Loose [] [] [.word cs] cs) :
    Safe allowed .loose .loose [] [] ('.' :: cs) := by
  have dot : Splits Fresh Fresh [] [] [.sign '.'] ['.'] :=
    .fixed rfl
  have loose := dot.loosen (by decide) (WordStops.cons (by decide) _)
  exact ⟨_, loose.append spelled, .property cs⟩

/-- A function or a method. -/
theorem routine {front : List Atom} {head params body : List Char} (heads : Heads allowed front)
    (spelled : Splits Fresh Loose [] [] front head)
    (inside : Safe (Permits true) .fresh .loose [] [] params)
    (below : Safe (Permits true) .still .still [] [] body) (k j : Nat) :
    Safe allowed .still .still [] [] (List.replicate k ' ' ++ (head ++ ("(".toList ++ (params
      ++ (") \x7b\n".toList ++ (body ++ (List.replicate j ' ' ++ "\x7d\n".toList))))))) := by
  have opening : Splits Fresh Fresh [] [')'] [.sign '('] "(".toList :=
    .fixed rfl
  have between : Splits Fresh Fresh [')'] ['}'] [.sign ')', .sign '{'] ") \x7b\n".toList :=
    .fixed rfl
  have closing : Splits Fresh Fresh ['}'] [] [.sign '}'] "\x7d\n".toList :=
    .fixed rfl
  obtain ⟨ps, cut, keeps⟩ := inside
  obtain ⟨bs, cut', keeps'⟩ := below
  have whole := (Splits.blanks k).append (spelled.append
    ((opening.loosen (by decide) (WordStops.cons (by decide) _)).append ((cut.within _).append
      ((between.loosen (by decide) (WordStops.cons (by decide) _)).append ((cut'.within _).append
        (((Splits.blanks j).within _).append closing))))))
  refine ⟨_, whole, ?_⟩
  simpa using Keeps.routine (e := .still) heads keeps keeps'

/-- A class. -/
theorem classBody {name methods : List Char}
    (spelled : Splits Fresh Loose [] [] [.word name] name) (other : name ≠ "await".toList)
    (inside : Safe InMembers .still .still [] [] methods) (k j : Nat) :
    Safe allowed .still .still [] [] (List.replicate k ' ' ++ ("class ".toList ++ (name
      ++ (" \x7b\n".toList ++ (methods ++ (List.replicate j ' ' ++ "\x7d\n".toList)))))) := by
  have keyword : Splits Fresh Fresh [] [] [.word "class".toList] "class ".toList :=
    .fixed rfl
  have opening : Splits Fresh Fresh [] ['}'] [.sign '{'] " \x7b\n".toList :=
    .fixed rfl
  have closing : Splits Fresh Fresh ['}'] [] [.sign '}'] "\x7d\n".toList :=
    .fixed rfl
  obtain ⟨bs, cut, keeps⟩ := inside
  have whole := (Splits.blanks k).append (keyword.append (spelled.append
    ((opening.loosen (by decide) (WordStops.cons (by decide) _)).append ((cut.within _).append
      (((Splits.blanks j).within _).append closing)))))
  refine ⟨_, whole, ?_⟩
  simpa using Keeps.classBody (e := .still) other keeps

/-- A function that is called at once. -/
theorem called {awaits : Bool} {body : List Char}
    (inside : Safe (Permits awaits) .still .still [] [] body) (j : Nat) :
    Safe (Permits awaits) .fresh .loose [] []
      ((if awaits then "await (async () => \x7b\n" else "(() => \x7b\n").toList
        ++ (body ++ (List.replicate j ' ' ++ "\x7d)()".toList))) := by
  have opening : Splits Fresh Fresh [] ['}', ')'] (callHead awaits)
      (if awaits then "await (async () => \x7b\n" else "(() => \x7b\n").toList := by
    cases awaits <;> exact .fixed rfl
  have closing : Splits Fresh Fresh ['}', ')'] []
      [.sign '}', .sign ')', .sign '(', .sign ')'] "\x7d)()".toList := .fixed rfl
  obtain ⟨bs, cut, keeps⟩ := inside
  have whole := opening.append ((cut.within _).append (((Splits.blanks j).within _).append closing))
  refine ⟨_, whole.imp (fun _ => id) fun _ _ => trivial, ?_⟩
  simpa using Keeps.called (e := .fresh) keeps

end Safe

/-- The text stays inside a template, and no `await` in it belongs to a plain arrow function. If
`fresh` holds, no dollar sign may stand in front of it. -/
def SafeInTemplate (wait fresh : Bool) (cs : List Char) : Prop :=
  ∃ as, SplitsInTemplate fresh as cs ∧ Keeps (Permits wait) .still .still 0 0 as

namespace SafeInTemplate

variable {wait fresh fresh' : Bool} {cs ds : List Char}

theorem nil : SafeInTemplate wait fresh [] :=
  ⟨[], .nil, .nil⟩

theorem text (text : List Char) (h : SafeInTemplate wait false cs) :
    SafeInTemplate wait true (escapeTemplate text ++ cs) := by
  obtain ⟨as, cut, keeps⟩ := h
  exact ⟨as, .text text cut, keeps⟩

theorem interpolation (inner : Safe (Permits wait) .fresh .loose [] [] cs)
    (h : SafeInTemplate wait fresh' ds) :
    SafeInTemplate wait fresh ('$' :: '{' :: (cs ++ '}' :: ds)) := by
  obtain ⟨as, cut, keeps⟩ := inner
  obtain ⟨bs, cut', keeps'⟩ := h
  have opening : Keeps (Permits wait) .still .fresh 0 1 [.sign '{'] :=
    .of_tame rfl (by simp)
  have closing : Keeps (Permits wait) .loose .still 1 0 [.sign '}'] :=
    .of_tame rfl (by simp)
  exact ⟨_, .interpolation cut cut', opening.append ((keeps.within 1).append
    (closing.append keeps'))⟩

theorem quoted (h : SafeInTemplate wait fresh cs) :
    Safe (Permits wait) .fresh .loose [] [] ('`' :: (cs ++ ['`'])) := by
  obtain ⟨as, cut, keeps⟩ := h
  have quote : Keeps (Permits wait) .fresh .still 0 0 [.sign '`'] :=
    .of_tame rfl (by simp)
  refine ⟨_, cut.quoted.imp (fun _ => id) fun _ _ => trivial, ?_⟩
  exact (quote.append keeps).relax (Nat.le_refl _) (by decide)

end SafeInTemplate

end Js

end TwoScript
