import TwoScript.Code.Literal
import TwoScript.Proofs.Token.Spell

/-!
# Regions of JavaScript

To find the end of a function body or of a template, JavaScript is scanned for what has
to be closed: brackets, strings and templates, inside one another. Nothing else about the
text matters. `Moves` says what a text does to the brackets around it, and texts compose,
so that the ends of generated code can be found piece by piece.
-/

namespace TwoScript

namespace Js

inductive Region where
  | bracket (close : Char)
  | string (quote : Char)
  | template
deriving DecidableEq, Repr

def Region.ofOpening? (c : Char) : Option Region :=
  match c with
  | '(' => some (.bracket ')')
  | '[' => some (.bracket ']')
  | '{' => some (.bracket '}')
  | '"' => some (.string '"')
  | '\'' => some (.string '\'')
  | '`' => some .template
  | _ => none

def isClosing (c : Char) : Bool :=
  c == ')' || c == ']' || c == '}'

namespace Region

/-- What a character of code leaves of a bracket. Comments are not scanned. -/
def inBracket (close : Char) (pending : Option Char) (c : Char) :
    Option (List Region × Option Char) :=
  if pending = some '/' ∧ (c = '/' ∨ c = '*') then none
  else
    match ofOpening? c with
    | some region => some ([region, .bracket close], none)
    | none =>
      if isClosing c then if c = close then some ([], none) else none
      else some ([.bracket close], if c = '/' then some '/' else none)

/-- What a character of a string leaves of it. A string stays on one line. -/
def inString (quote : Char) (pending : Option Char) (c : Char) :
    Option (List Region × Option Char) :=
  if pending = some '\\' then some ([.string quote], none)
  else if c = '\\' then some ([.string quote], some '\\')
  else if c = quote then some ([], none)
  else if c = '\n' then none
  else some ([.string quote], none)

/-- What a character of a template leaves of it. A dollar sign and a brace begin code. -/
def inTemplate (pending : Option Char) (c : Char) : Option (List Region × Option Char) :=
  if pending = some '\\' then some ([.template], none)
  else if c = '\\' then some ([.template], some '\\')
  else if c = '`' then some ([], none)
  else if pending = some '$' ∧ c = '{' then some ([.bracket '}', .template], none)
  else some ([.template], if c = '$' then some '$' else none)

/-- The regions that are open instead of this one behind a character, and what is then
pending. A slash in code, a backslash in quotes and a dollar sign in a template decide what
the next character means. -/
def step : Region → Option Char → Char → Option (List Region × Option Char)
  | bracket close => inBracket close
  | string quote => inString quote
  | template => inTemplate

end Region

/-- The regions that are open, the innermost first, and the character that is pending. -/
structure Scanner where
  regions : List Region
  pending : Option Char
deriving DecidableEq, Repr

namespace Scanner

def step (s : Scanner) (c : Char) : Option Scanner :=
  match s.regions with
  | [] => none
  | region :: outer => (region.step s.pending c).map fun next => ⟨next.1 ++ outer, next.2⟩

theorem step_cons (region : Region) (outer : List Region) (pending : Option Char) (c : Char) :
    step ⟨region :: outer, pending⟩ c =
      (region.step pending c).map fun next => ⟨next.1 ++ outer, next.2⟩ := rfl

def walk (s : Scanner) : List Char → Option Scanner
  | [] => some s
  | c :: cs => (s.step c).bind (·.walk cs)

/-- The length of a text up to the character that closes the last open region. -/
def extent (s : Scanner) : List Char → Option Nat
  | [] => none
  | c :: cs =>
    (s.step c).bind fun t =>
      if t.regions = [] then some 1 else (t.extent cs).map (· + 1)

theorem walk_append (s : Scanner) (cs ds : List Char) :
    s.walk (cs ++ ds) = (s.walk cs).bind (·.walk ds) := by
  induction cs generalizing s with
  | nil => rfl
  | cons c cs ih =>
      simp only [List.cons_append, walk, Option.bind_assoc]
      congr
      funext t
      exact ih t

/-- A region that is open behind a text is closed behind it. -/
theorem extent_append {s t : Scanner} {cs : List Char} (h : s.walk cs = some t)
    (opened : t.regions ≠ []) (rest : List Char) :
    s.extent (cs ++ rest) = (t.extent rest).map (· + cs.length) := by
  induction cs generalizing s with
  | nil =>
      cases h
      simp
  | cons c cs ih =>
      obtain ⟨u, first, later⟩ := Option.bind_eq_some_iff.mp h
      have inside : u.regions ≠ [] := by
        intro closed
        cases cs with
        | nil =>
            cases later
            exact opened closed
        | cons d ds => simp [walk, step, closed] at later
      rw [List.cons_append, extent, first, Option.bind_some, if_neg inside, ih later,
        Option.map_map]
      congr

/-! ## What stands below -/

/-- A bracket that no character closes, and that may stand for any other. -/
def floor : Region := .bracket ' '

theorem inBracket_floor {c : Char} {pending left : Option Char} {rs : List Region}
    (close : Char) (h : Region.inBracket ' ' pending c = some (rs, left)) :
    ∃ us, rs = us ++ [floor] ∧
      Region.inBracket close pending c = some (us ++ [.bracket close], left) := by
  unfold Region.inBracket at h ⊢
  split at h
  · cases h
  · rename_i comment
    rw [if_neg comment]
    split at h
    · rename_i region _
      cases h
      exact ⟨[region], rfl, rfl⟩
    · split at h
      · rename_i closing
        split at h
        · rename_i blank
          rw [blank] at closing
          cases closing
        · cases h
      · rename_i closing
        rw [if_neg closing]
        cases h
        exact ⟨[], rfl, rfl⟩

/-- What a character does above the floor it does above every bracket. -/
theorem step_floor {c : Char} {pending : Option Char} {t : Scanner} {rs : List Region}
    (close : Char) (outer : List Region) (h : step ⟨rs ++ [floor], pending⟩ c = some t) :
    ∃ us, t.regions = us ++ [floor] ∧
      step ⟨rs ++ .bracket close :: outer, pending⟩ c =
        some ⟨us ++ .bracket close :: outer, t.pending⟩ := by
  cases rs with
  | nil =>
      rw [List.nil_append, step_cons] at h
      obtain ⟨⟨opened, left⟩, stepped, rfl⟩ := Option.map_eq_some_iff.mp h
      obtain ⟨us, rfl, same⟩ := inBracket_floor close stepped
      refine ⟨us, List.append_nil _, ?_⟩
      have bracket : (Region.bracket close).step pending c = _ := same
      rw [List.nil_append, step_cons, bracket]
      simp
  | cons region rs =>
      rw [List.cons_append, step_cons] at h
      obtain ⟨⟨opened, left⟩, stepped, rfl⟩ := Option.map_eq_some_iff.mp h
      refine ⟨opened ++ rs, (List.append_assoc ..).symm, ?_⟩
      rw [List.cons_append, step_cons, stepped]
      simp

theorem walk_floor {cs : List Char} {pending : Option Char} {t : Scanner} {rs : List Region}
    (close : Char) (outer : List Region) (h : walk ⟨rs ++ [floor], pending⟩ cs = some t) :
    ∃ us, t.regions = us ++ [floor] ∧
      walk ⟨rs ++ .bracket close :: outer, pending⟩ cs =
        some ⟨us ++ .bracket close :: outer, t.pending⟩ := by
  induction cs generalizing rs pending with
  | nil =>
      cases h
      exact ⟨rs, rfl, rfl⟩
  | cons c cs ih =>
      obtain ⟨u, first, later⟩ := Option.bind_eq_some_iff.mp h
      obtain ⟨us, regions, same⟩ := step_floor close outer first
      have whole : u = ⟨us ++ [floor], u.pending⟩ := by rw [← regions]
      rw [whole] at later
      obtain ⟨vs, left, all⟩ := ih later
      refine ⟨vs, left, ?_⟩
      rw [walk, same]
      exact all

end Scanner

/-! ## What a text does to brackets -/

/-- The text closes the brackets `before` and leaves the brackets `after` open, whatever
is open around them. -/
def Moves (before after cs : List Char) : Prop :=
  ∀ close outer,
    Scanner.walk ⟨before.map .bracket ++ .bracket close :: outer, none⟩ cs =
      some ⟨after.map .bracket ++ .bracket close :: outer, none⟩

def Balanced (cs : List Char) : Prop :=
  Moves [] [] cs

/-- A character that opens, closes and begins nothing. -/
def isPlain (c : Char) : Bool :=
  (Region.ofOpening? c).isNone && !isClosing c && c != '/'

theorem Scanner.step_of_isPlain {c : Char} (h : isPlain c = true) (close : Char)
    (outer : List Region) :
    step ⟨.bracket close :: outer, none⟩ c = some ⟨.bracket close :: outer, none⟩ := by
  simp only [isPlain, Bool.and_eq_true, Option.isNone_iff_eq_none, Bool.not_eq_true',
    bne_iff_ne] at h
  simp [step, Region.step, Region.inBracket, h.1.1, h.1.2, h.2]

namespace Moves

variable {a b d cs ds : List Char}

theorem append (first : Moves a b cs) (second : Moves b d ds) : Moves a d (cs ++ ds) := by
  intro close outer
  rw [Scanner.walk_append, first, Option.bind_some, second]

/-- What a fixed text does is found by scanning it once. -/
theorem of_walk (h : Scanner.walk ⟨a.map .bracket ++ [Scanner.floor], none⟩ cs =
    some ⟨b.map .bracket ++ [Scanner.floor], none⟩) : Moves a b cs := by
  intro close outer
  obtain ⟨us, regions, same⟩ := Scanner.walk_floor close outer h
  rw [same, ← List.append_cancel_right regions]

end Moves

namespace Balanced

variable {cs ds : List Char}

theorem append (first : Balanced cs) (second : Balanced ds) : Balanced (cs ++ ds) :=
  Moves.append first second

theorem of_isPlain (h : ∀ c ∈ cs, isPlain c = true) : Balanced cs := by
  intro close outer
  induction cs with
  | nil => rfl
  | cons c cs ih =>
      rw [Scanner.walk, List.map_nil, List.nil_append,
        Scanner.step_of_isPlain (h c List.mem_cons_self)]
      exact ih fun d hd => h d (List.mem_cons_of_mem c hd)

end Balanced

/-! ## Strings -/

theorem walk_escapeChar (c : Char) (outer : List Region) :
    Scanner.walk ⟨.string '"' :: outer, none⟩ (escapeChar c) =
      some ⟨.string '"' :: outer, none⟩ := by
  rcases escapeChar_cases c with ⟨d, _, chars⟩ | ⟨⟨quote, escape, line, _⟩, chars⟩
  · rw [chars]
    rfl
  · simp [chars, Scanner.walk, Scanner.step, Region.step, Region.inString, quote, escape, line]

theorem Balanced.string (cs : List Char) : Balanced (escapeString cs) := by
  intro close outer
  have inside : Scanner.walk ⟨.string '"' :: .bracket close :: outer, none⟩
      (cs.flatMap escapeChar) = some ⟨.string '"' :: .bracket close :: outer, none⟩ := by
    induction cs with
    | nil => rfl
    | cons c cs ih =>
        rw [List.flatMap_cons, Scanner.walk_append, walk_escapeChar, Option.bind_some, ih]
  have opening : Scanner.walk ⟨.bracket close :: outer, none⟩ ['"'] =
      some ⟨.string '"' :: .bracket close :: outer, none⟩ := rfl
  have whole : escapeString cs = ['"'] ++ (cs.flatMap escapeChar ++ ['"']) := rfl
  rw [whole, Scanner.walk_append, List.map_nil, List.nil_append, opening, Option.bind_some,
    Scanner.walk_append, inside]
  rfl

/-! ## Templates -/

def InTemplate (s : Scanner) (outer : List Region) : Prop :=
  s.regions = .template :: outer ∧ (s.pending = none ∨ s.pending = some '$')

theorem InTemplate.pending_ne {s : Scanner} {outer : List Region} (h : InTemplate s outer) :
    s.pending ≠ some '\\' := by
  rcases h.2 with none | dollar
  · simp [none]
  · simp [dollar]

theorem InTemplate.step_close {s : Scanner} {outer : List Region} (h : InTemplate s outer) :
    s.step '`' = some ⟨outer, none⟩ := by
  simp [Scanner.step, h.1, Region.step, Region.inTemplate, h.pending_ne]

theorem InTemplate.step_dollar {s : Scanner} {outer : List Region} (h : InTemplate s outer) :
    s.step '$' = some ⟨.template :: outer, some '$'⟩ := by
  simp [Scanner.step, h.1, Region.step, Region.inTemplate, h.pending_ne]

theorem InTemplate.step_escape {s : Scanner} {outer : List Region} (h : InTemplate s outer) :
    s.step '\\' = some ⟨.template :: outer, some '\\'⟩ := by
  simp [Scanner.step, h.1, Region.step, Region.inTemplate, h.pending_ne]

theorem InTemplate.step_plain {s : Scanner} {outer : List Region} (h : InTemplate s outer)
    {c : Char} (tick : c ≠ '`') (escape : c ≠ '\\') (brace : ¬(s.pending = some '$' ∧ c = '{')) :
    s.step c = some ⟨.template :: outer, if c = '$' then some '$' else none⟩ := by
  simp only [Scanner.step, h.1, Region.step, Region.inTemplate, if_neg h.pending_ne, if_neg escape,
    if_neg tick, if_neg brace]
  rfl

/-- Escaped text is scanned in its template character by character. -/
theorem escapeTemplate_rec {outer : List Region} {P : Scanner → List Char → Prop}
    (nil : ∀ s, InTemplate s outer → P s [])
    (cons : ∀ s t c cs, s.regions = .template :: outer → s.step c = some t → P t cs → P s (c :: cs))
    (cs : List Char) {s : Scanner} (h : InTemplate s outer)
    (apart : s.pending = some '$' → cs.head? ≠ some '{') : P s (escapeTemplate cs) := by
  induction cs generalizing s with
  | nil => exact nil s h
  | cons c cs ih =>
      rw [escapeTemplate]
      split
      · -- The backslash takes the character with it.
        have rest := ih (s := ⟨.template :: outer, none⟩) ⟨rfl, .inl rfl⟩ (by simp)
        exact cons _ _ _ _ h.1 h.step_escape (cons _ _ _ _ rfl rfl rest)
      · rename_i plain
        rw [not_or, not_or] at plain
        obtain ⟨tick, escape, dollar⟩ := plain
        have brace : ¬(s.pending = some '$' ∧ c = '{') := by
          rintro ⟨before, rfl⟩
          exact apart before rfl
        refine cons _ _ _ _ h.1 (h.step_plain tick escape brace) (ih ⟨rfl, ?_⟩ fun before => ?_)
        · by_cases same : c = '$' <;> simp [same]
        · by_cases same : c = '$'
          · exact fun next => dollar ⟨same, next⟩
          · simp [same] at before

end Js

end TwoScript
