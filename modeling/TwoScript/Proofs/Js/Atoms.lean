import TwoScript.Proofs.Js.Lowering

/-!
# Words and signs of JavaScript

JavaScript is cut into words and signs. What stands between quotes leaves nothing behind but
the sign that opens them; the code inside a template is cut as all other code, together with
the braces around it. `Splits` says what a text is cut into, and texts compose.
-/

namespace TwoScript

namespace Js

def flush (word : List Char) : List Atom :=
  if word = [] then [] else [.word word]

@[simp] theorem flush_nil : flush [] = [] := rfl

theorem flush_of_ne_nil {word : List Char} (h : word ≠ []) : flush word = [.word word] :=
  if_neg h

structure Splitter where
  scanner : Scanner
  word : List Char
deriving DecidableEq, Repr

namespace Splitter

def start : Splitter := ⟨⟨[Scanner.floor], none⟩, []⟩

/-- Whether a character is a sign: it stands in code and is not blank, or it is the brace with
which code begins in a template. -/
def shows (before behind : Scanner) (c : Char) : Bool :=
  if before.inCode then !isBlank c else behind.inCode && c == '{'

def step (s : Splitter) (c : Char) : Option (Splitter × List Atom) :=
  (s.scanner.step c).map fun next =>
    if s.scanner.inCode && continuesWord c then (⟨next, s.word ++ [c]⟩, [])
    else (⟨next, []⟩, flush s.word ++ if shows s.scanner next c then [.sign c] else [])

def run (s : Splitter) : List Char → Option (Splitter × List Atom)
  | [] => some (s, [])
  | c :: cs =>
    (s.step c).bind fun next => (next.1.run cs).map fun last => (last.1, next.2 ++ last.2)

theorem run_append (s : Splitter) (cs ds : List Char) :
    s.run (cs ++ ds) =
      (s.run cs).bind fun next => (next.1.run ds).map fun last => (last.1, next.2 ++ last.2) := by
  induction cs generalizing s with
  | nil => simp [run]
  | cons c cs ih =>
      cases stepped : s.step c with
      | none => simp [run, stepped]
      | some next =>
          cases ran : next.1.run cs with
          | none => simp [run, stepped, ih, ran]
          | some last => simp [run, stepped, ih, ran, Function.comp_def]

theorem run_append_of_eq {s t u : Splitter} {cs ds : List Char} {as bs : List Atom}
    (first : s.run cs = some (t, as)) (second : t.run ds = some (u, bs)) :
    s.run (cs ++ ds) = some (u, as ++ bs) := by
  rw [run_append, first, Option.bind_some, second, Option.map_some]

theorem run_cons_of_eq {s t u : Splitter} {c : Char} {cs : List Char} {as bs : List Atom}
    (first : s.step c = some (t, as)) (second : t.run cs = some (u, bs)) :
    s.run (c :: cs) = some (u, as ++ bs) := by
  rw [run, first, Option.bind_some, second, Option.map_some]

/-! ## What stands below -/

theorem inCode_floor (rs : List Region) (pending left : Option Char) (close : Char)
    (outer : List Region) : Scanner.inCode ⟨rs ++ .bracket close :: outer, pending⟩ =
      Scanner.inCode ⟨rs ++ [Scanner.floor], left⟩ := by
  rcases rs with _ | ⟨_ | _ | _, _⟩ <;> rfl

/-- What a text is cut into above the floor it is cut into above every bracket. -/
theorem run_floor {cs : List Char} {rs : List Region} {pending : Option Char} {t : Splitter}
    {word : List Char} {as : List Atom} (close : Char) (outer : List Region)
    (h : run ⟨⟨rs ++ [Scanner.floor], pending⟩, word⟩ cs = some (t, as)) :
    ∃ us, t.scanner.regions = us ++ [Scanner.floor] ∧
      run ⟨⟨rs ++ .bracket close :: outer, pending⟩, word⟩ cs =
        some (⟨⟨us ++ .bracket close :: outer, t.scanner.pending⟩, t.word⟩, as) := by
  induction cs generalizing rs pending word as with
  | nil =>
      cases h
      exact ⟨rs, rfl, rfl⟩
  | cons c cs ih =>
      obtain ⟨next, first, later⟩ := Option.bind_eq_some_iff.mp h
      obtain ⟨⟨last, bs⟩, ran, whole⟩ := Option.map_eq_some_iff.mp later
      obtain ⟨scanner, scanned, rfl⟩ := Option.map_eq_some_iff.mp first
      obtain ⟨us, regions, same⟩ := Scanner.step_floor close outer scanned
      obtain ⟨rfl, rfl⟩ := Prod.mk.inj whole
      obtain ⟨left, pending'⟩ := scanner
      obtain rfl : left = us ++ [Scanner.floor] := regions
      have code := inCode_floor rs pending pending close outer
      have code' := inCode_floor us pending' pending' close outer
      by_cases part : (Scanner.inCode ⟨rs ++ [Scanner.floor], pending⟩ && continuesWord c) = true
      · simp only [part, if_true] at ran ⊢
        obtain ⟨vs, below, all⟩ := ih ran
        refine ⟨vs, below, run_cons_of_eq ?_ all⟩
        simp [step, same, code, part]
      · simp only [part] at ran ⊢
        obtain ⟨vs, below, all⟩ := ih ran
        refine ⟨vs, below, run_cons_of_eq ?_ all⟩
        simp [step, same, code, code', part, shows]

/-- A word is over as soon as the text does not go on with it. -/
theorem run_of_wordStops {scanner : Scanner} {word cs : List Char} {t : Splitter} {as : List Atom}
    (some : cs ≠ []) (stops : WordStops cs)
    (h : run ⟨scanner, []⟩ cs = .some (t, as)) :
    run ⟨scanner, word⟩ cs = .some (t, flush word ++ as) := by
  cases cs with
  | nil => exact absurd rfl some
  | cons c cs =>
      have part : continuesWord c = false := stops c rfl
      obtain ⟨next, first, later⟩ := Option.bind_eq_some_iff.mp h
      obtain ⟨⟨last, bs⟩, ran, whole⟩ := Option.map_eq_some_iff.mp later
      obtain ⟨next', scanned, rfl⟩ := Option.map_eq_some_iff.mp first
      obtain ⟨rfl, rfl⟩ := Prod.mk.inj whole
      simp only [part, Bool.and_false] at ran ⊢
      have stepped : step ⟨scanner, word⟩ c = .some (⟨next', []⟩,
          flush word ++ if shows scanner next' c then [.sign c] else []) := by
        simp [step, scanned, part]
      simpa [List.append_assoc] using run_cons_of_eq stepped ran

theorem run_word {cs : List Char} (h : ∀ c ∈ cs, continuesWord c = true) (close : Char)
    (outer : List Region) (word : List Char) :
    run ⟨⟨.bracket close :: outer, none⟩, word⟩ cs =
      some (⟨⟨.bracket close :: outer, none⟩, word ++ cs⟩, []) := by
  induction cs generalizing word with
  | nil => rw [List.append_nil, run]
  | cons c cs ih =>
      have part := h c List.mem_cons_self
      have first : step ⟨⟨.bracket close :: outer, none⟩, word⟩ c =
          some (⟨⟨.bracket close :: outer, none⟩, word ++ [c]⟩, []) := by
        rw [step, Scanner.step_of_isPlain (isPlain_of_continuesWord part)]
        simp [Scanner.inCode, part]
      have rest := ih (fun d hd => h d (List.mem_cons_of_mem _ hd)) (word ++ [c])
      simpa using run_cons_of_eq first rest

theorem run_blanks (k : Nat) (close : Char) (outer : List Region) :
    run ⟨⟨.bracket close :: outer, none⟩, []⟩ (List.replicate k ' ') =
      some (⟨⟨.bracket close :: outer, none⟩, []⟩, []) := by
  induction k with
  | zero => rfl
  | succ k ih =>
      have blank : step ⟨⟨.bracket close :: outer, none⟩, []⟩ ' ' =
          some (⟨⟨.bracket close :: outer, none⟩, []⟩, []) := rfl
      rw [List.replicate_succ]
      exact run_cons_of_eq blank ih

end Splitter

/-! ## What a text is cut into -/

/-- The text closes the brackets `before`, leaves the brackets `after` open and is cut into the
atoms, its last word included. The word that is under way in front of it satisfies `p`, and the
one behind it `q`. -/
def Splits (p q : List Char → Prop) (before after : List Char) (as : List Atom)
    (cs : List Char) : Prop :=
  ∀ close outer word, p word →
    ∃ word' as', q word' ∧ as' ++ flush word' = flush word ++ as ∧
      Splitter.run ⟨⟨before.map .bracket ++ .bracket close :: outer, none⟩, word⟩ cs =
        some (⟨⟨after.map .bracket ++ .bracket close :: outer, none⟩, word'⟩, as')

def Loose (_ : List Char) : Prop := True

namespace Splits

variable {p q s : List Char → Prop} {a b d cs ds : List Char} {as bs : List Atom}

theorem nil : Splits p p a a [] [] :=
  fun _ _ word before => ⟨word, [], before, by simp, rfl⟩

theorem append (first : Splits p q a b as cs) (second : Splits q s b d bs ds) :
    Splits p s a d (as ++ bs) (cs ++ ds) := by
  intro close outer word before
  obtain ⟨word', as', between, cut, front⟩ := first close outer word before
  obtain ⟨word'', bs', behind, rest, back⟩ := second close outer word' between
  refine ⟨word'', as' ++ bs', behind, ?_, Splitter.run_append_of_eq front back⟩
  rw [List.append_assoc, rest, ← List.append_assoc, cut, List.append_assoc]

theorem imp {p' q' : List Char → Prop} (h : Splits p q a b as cs) (left : ∀ w, p' w → p w)
    (right : ∀ w, q w → q' w) : Splits p' q' a b as cs := by
  intro close outer word before
  obtain ⟨word', as', behind, rest⟩ := h close outer word (left word before)
  exact ⟨word', as', right word' behind, rest⟩

theorem within (h : Splits p q [] [] as cs) (around : List Char) :
    Splits p q around around as cs := by
  cases around with
  | nil => exact h
  | cons c around =>
      intro close outer word before
      exact h c (around.map Region.bracket ++ .bracket close :: outer) word before

/-- What a fixed text is cut into is found by running over it once. -/
theorem of_run {word : List Char} (h : Splitter.run ⟨⟨a.map .bracket ++ [Scanner.floor], none⟩, []⟩
    cs = some (⟨⟨b.map .bracket ++ [Scanner.floor], none⟩, word⟩, as)) (ends : q word) :
    Splits Fresh q a b (as ++ flush word) cs := by
  intro close outer empty fresh
  obtain rfl : empty = [] := fresh
  obtain ⟨us, regions, ran⟩ := Splitter.run_floor close outer h
  refine ⟨word, as, ends, rfl, ?_⟩
  rw [ran, ← List.append_cancel_right regions]

/-- A fixed text that does not end with a word. -/
theorem fixed (h : Splitter.run ⟨⟨a.map .bracket ++ [Scanner.floor], none⟩, []⟩ cs =
    some (⟨⟨b.map .bracket ++ [Scanner.floor], none⟩, []⟩, as)) : Splits Fresh Fresh a b as cs := by
  have cut : Splits Fresh Fresh a b (as ++ flush []) cs := of_run h rfl
  rwa [flush_nil, List.append_nil] at cut

/-- A text that does not begin with a word may stand behind one. -/
theorem loosen (h : Splits Fresh q a b as cs) (some : cs ≠ []) (stops : WordStops cs) :
    Splits Loose q a b as cs := by
  intro close outer word _
  obtain ⟨word', as', behind, cut, ran⟩ := h close outer [] rfl
  refine ⟨word', flush word ++ as', behind, ?_, Splitter.run_of_wordStops some stops ran⟩
  rw [List.append_assoc, cut, flush_nil, List.nil_append]

theorem word (some : cs ≠ []) (h : ∀ c ∈ cs, continuesWord c = true) :
    Splits Fresh Loose [] [] [.word cs] cs := by
  intro close outer empty fresh
  obtain rfl : empty = [] := fresh
  exact ⟨cs, [], trivial, flush_of_ne_nil some, Splitter.run_word h close outer []⟩

theorem blanks (k : Nat) : Splits Fresh Fresh [] [] [] (List.replicate k ' ') := by
  intro close outer empty fresh
  obtain rfl : empty = [] := fresh
  exact ⟨[], [], rfl, rfl, Splitter.run_blanks k close outer⟩

end Splits

/-! ## Quotes -/

theorem Splitter.run_escapeChar (c : Char) (outer : List Region) :
    run ⟨⟨.string '"' :: outer, none⟩, []⟩ (escapeChar c) =
      some (⟨⟨.string '"' :: outer, none⟩, []⟩, []) := by
  rcases escapeChar_cases c with ⟨d, _, chars⟩ | ⟨⟨quote, escape, line, _⟩, chars⟩
  · rw [chars]
    rfl
  · simp [chars, run, step, shows, Scanner.step, Region.step, Region.inString, Scanner.inCode,
      quote, escape, line]

/-- A string is cut into its first quote. -/
theorem Splits.string (cs : List Char) :
    Splits Fresh Fresh [] [] [.sign '"'] (escapeString cs) := by
  intro close outer empty fresh
  obtain rfl : empty = [] := fresh
  have inside : Splitter.run ⟨⟨.string '"' :: .bracket close :: outer, none⟩, []⟩
      (cs.flatMap escapeChar) =
        some (⟨⟨.string '"' :: .bracket close :: outer, none⟩, []⟩, []) := by
    induction cs with
    | nil => rfl
    | cons c cs ih =>
        rw [List.flatMap_cons]
        exact Splitter.run_append_of_eq (Splitter.run_escapeChar c _) ih
  have opening : Splitter.run ⟨⟨.bracket close :: outer, none⟩, []⟩ ['"'] =
      some (⟨⟨.string '"' :: .bracket close :: outer, none⟩, []⟩, [.sign '"']) := rfl
  have closing : Splitter.run ⟨⟨.string '"' :: .bracket close :: outer, none⟩, []⟩ ['"'] =
      some (⟨⟨.bracket close :: outer, none⟩, []⟩, []) := rfl
  exact ⟨[], [.sign '"'], rfl, rfl,
    Splitter.run_append_of_eq opening (Splitter.run_append_of_eq inside closing)⟩

/-- The text stays inside a template and is cut into the atoms. If `fresh` holds, no dollar
sign may stand in front of it. -/
def SplitsInTemplate (fresh : Bool) (as : List Atom) (cs : List Char) : Prop :=
  ∀ s outer, InTemplate s outer → (fresh = true → s.pending = none) →
    ∃ t, InTemplate t outer ∧ Splitter.run ⟨s, []⟩ cs = some (⟨t, []⟩, as)

namespace SplitsInTemplate

variable {fresh : Bool} {as bs : List Atom} {cs ds : List Char}

theorem nil : SplitsInTemplate fresh [] [] :=
  fun s _ inside _ => ⟨s, inside, rfl⟩

theorem text (text : List Char) (h : SplitsInTemplate false as cs) :
    SplitsInTemplate true as (escapeTemplate text ++ cs) := by
  intro s outer inside fresh
  have passed : s.regions = .template :: outer ∧ ∃ t, InTemplate t outer ∧
      Splitter.run ⟨s, []⟩ (escapeTemplate text) = some (⟨t, []⟩, []) := by
    refine escapeTemplate_rec (P := fun s cs => s.regions = .template :: outer ∧
      ∃ t, InTemplate t outer ∧ Splitter.run ⟨s, []⟩ cs = some (⟨t, []⟩, []))
      (fun s inside => ⟨inside.1, s, inside, rfl⟩)
      (fun s t c cs regions stepped rest => ?_) text inside (by simp [fresh rfl])
    obtain ⟨regions', u, left, ran⟩ := rest
    have passed : Splitter.step ⟨s, []⟩ c = some (⟨t, []⟩, []) := by
      simp [Splitter.step, Splitter.shows, stepped, Scanner.inCode, regions, regions']
    exact ⟨regions, u, left, Splitter.run_cons_of_eq passed ran⟩
  obtain ⟨-, t, left, ran⟩ := passed
  obtain ⟨u, last, rest⟩ := h t outer left (by simp)
  exact ⟨u, last, Splitter.run_append_of_eq ran rest⟩

/-- The code of an interpolation is cut together with its braces. -/
theorem interpolation {fresh' : Bool} (inner : Splits Fresh Loose [] [] as cs)
    (h : SplitsInTemplate fresh' bs ds) :
    SplitsInTemplate fresh (.sign '{' :: (as ++ .sign '}' :: bs))
      ('$' :: '{' :: (cs ++ '}' :: ds)) := by
  intro s outer inside _
  have dollar : Splitter.step ⟨s, []⟩ '$' =
      some (⟨⟨.template :: outer, some '$'⟩, []⟩, []) := by
    simp [Splitter.step, Splitter.shows, inside.step_dollar, Scanner.inCode, inside.1]
  have brace : Splitter.step ⟨⟨.template :: outer, some '$'⟩, []⟩ '{' =
      some (⟨⟨.bracket '}' :: .template :: outer, none⟩, []⟩, [.sign '{']) := rfl
  obtain ⟨word, as', -, cut, ran⟩ := inner '}' (.template :: outer) [] rfl
  rw [flush_nil, List.nil_append] at cut
  have close : Splitter.step ⟨⟨.bracket '}' :: .template :: outer, none⟩, word⟩ '}' =
      some (⟨⟨.template :: outer, none⟩, []⟩, flush word ++ [.sign '}']) := rfl
  obtain ⟨t, left, rest⟩ := h ⟨.template :: outer, none⟩ outer ⟨rfl, .inl rfl⟩ fun _ => rfl
  refine ⟨t, left, ?_⟩
  have whole := Splitter.run_cons_of_eq dollar (Splitter.run_cons_of_eq brace
    (Splitter.run_append_of_eq ran (Splitter.run_cons_of_eq close rest)))
  rw [whole, ← cut]
  simp

/-- A template is cut into its first quote and the code in it. -/
theorem quoted (h : SplitsInTemplate fresh as cs) :
    Splits Fresh Fresh [] [] (.sign '`' :: as) ('`' :: (cs ++ ['`'])) := by
  intro close outer empty start
  obtain rfl : empty = [] := start
  obtain ⟨t, left, ran⟩ := h ⟨.template :: .bracket close :: outer, none⟩ (.bracket close :: outer)
    ⟨rfl, .inl rfl⟩ fun _ => rfl
  have opening : Splitter.step ⟨⟨.bracket close :: outer, none⟩, []⟩ '`' =
      some (⟨⟨.template :: .bracket close :: outer, none⟩, []⟩, [.sign '`']) := rfl
  have closing : Splitter.run ⟨t, []⟩ ['`'] = some (⟨⟨.bracket close :: outer, none⟩, []⟩, []) := by
    simp [Splitter.run, Splitter.step, Splitter.shows, left.step_close, Scanner.inCode, left.1]
  have whole := Splitter.run_cons_of_eq opening (Splitter.run_append_of_eq ran closing)
  exact ⟨[], _, rfl, by simp, whole⟩

end SplitsInTemplate

end Js

end TwoScript
