import TwoScript.Span

/-!
# Escapes and templates

A backslash in a quoted text stands for one character with the next one. A template
text also holds sources `${...}`: the source ends at the brace that closes it, where
braces inside quoted strings do not count. `TemplateMode.step` is the one place that
knows where a source begins and ends; finding the end of a template, resolving its
escapes and splitting it into segments all follow it character by character.
-/

namespace TwoScript

def resolveEscape (c : Char) : Char :=
  if c = 'n' then '\n' else if c = 't' then '\t' else if c = 'r' then '\r' else c

/-- The text of a quoted literal with its escapes resolved. A backslash at the very end
stands for itself. -/
def unescape : List Char → List Char
  | '\\' :: c :: cs => resolveEscape c :: unescape cs
  | c :: cs => c :: unescape cs
  | [] => []

/-- How deep in a source `${...}` a character stands: the braces opened since its
beginning and not yet closed, the quote of the string around it, and whether a
backslash of that string hides it. -/
structure Nesting where
  braces : Nat
  quote : Option Char
  hidden : Bool
deriving DecidableEq, Repr

namespace Nesting

def outermost : Nesting := ⟨0, none, false⟩

/-- The nesting behind the character `c`, or `none` when `c` closes the source. -/
def after (n : Nesting) (c : Char) : Option Nesting :=
  match n.quote with
  | some q =>
    if n.hidden then some { n with hidden := false }
    else if c = '\\' then some { n with hidden := true }
    else if c = q then some { n with quote := none }
    else some n
  | none =>
    if c = '"' ∨ c = '\'' then some { n with quote := some c }
    else if c = '{' then some { n with braces := n.braces + 1 }
    else if c = '}' then
      if n.braces = 0 then none else some { n with braces := n.braces - 1 }
    else some n

end Nesting

/-- Where in a template a character stands: in its text, behind a backslash of the text,
on the opening brace of a source, or inside a source. -/
inductive TemplateMode where
  | text
  | escape
  | brace
  | source (nesting : Nesting)
deriving DecidableEq, Repr

namespace TemplateMode

def step (m : TemplateMode) (c : Char) (next : Option Char) : TemplateMode :=
  match m with
  | text =>
    if c = '\\' then escape
    else if c = '$' ∧ next = some '{' then brace
    else text
  | escape => text
  | brace => source .outermost
  | source n =>
    match n.after c with
    | some n => source n
    | none => text

/-- What a character of a template contributes to its value. Escapes of the text are
resolved except those of a dollar sign and of a backslash, which keep their
backslash; sources are kept as they are. -/
def value (m : TemplateMode) (c : Char) (next : Option Char) : List Char :=
  match m with
  | text => if c = '\\' ∧ next.isSome then [] else [c]
  | escape => if c = '$' ∨ c = '\\' then ['\\', c] else [resolveEscape c]
  | brace | source _ => [c]

end TemplateMode

/-- The value of a template body: escapes resolved so that the sources can still be
told apart from text. -/
def templateValue (m : TemplateMode) : List Char → List Char
  | [] => []
  | c :: cs => m.value c cs.head? ++ templateValue (m.step c cs.head?) cs

/-- A piece of a template value: text with all escapes resolved, or a source with the
place at which it begins. -/
inductive Segment where
  | text (chars : List Char)
  | source (place : Place) (chars : List Char)
deriving DecidableEq, Repr

namespace Segment

def pushText (c : Char) : List Segment → List Segment
  | text cs :: rest => text (c :: cs) :: rest
  | rest => text [c] :: rest

/-- Puts a character of a source in front of segments that begin with that source. -/
def pushSource (c : Char) : List Segment → List Segment
  | source p cs :: rest => source p (c :: cs) :: rest
  | rest => rest

end Segment

/-- Splits a template value into segments. The next character stands at `here`; a source
under way began at `begun`, and one that is never closed runs to the end. Empty text
makes no segment. -/
def segments (m : TemplateMode) (begun here : Place) : List Char → List Segment
  | [] =>
    match m with
    | .source _ => [.source begun []]
    | _ => []
  | c :: cs =>
    let next := m.step c cs.head?
    let there := here.after [c]
    match m with
    | .text =>
      if next = .brace ∨ c = '\\' ∧ cs ≠ [] then segments next begun there cs
      else Segment.pushText c (segments next begun there cs)
    | .escape => Segment.pushText c (segments next begun there cs)
    | .brace => segments next there there cs
    | .source _ =>
      if next = .text then .source begun [] :: segments next begun there cs
      else Segment.pushSource c (segments next begun there cs)

def templateSegments (here : Place) (value : List Char) : List Segment :=
  segments .text here here value

end TwoScript
