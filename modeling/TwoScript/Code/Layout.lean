/-!
# Layouts of generated code

Generated code is a list of pieces: text, and the indentation at the start of a line.
The width of a level is chosen only when the pieces are rendered, so it cannot
influence anything else.
-/

namespace TwoScript

inductive Piece where
  | text (text : String)
  | indent (level : Nat)
deriving DecidableEq, Repr

/-- Generated code before the width of its indentation is known. -/
abbrev Layout := List Piece

namespace Piece

/-- The text of a piece when a level is `width` spaces wide. -/
def render (width : Nat) : Piece → String
  | text s => s
  | indent level => String.ofList (List.replicate (level * width) ' ')

end Piece

namespace Layout

def render (width : Nat) : Layout → String
  | [] => ""
  | p :: ps => p.render width ++ render width ps

def first? : Layout → Option Char
  | .text s :: ps =>
    match s.toList with
    | c :: _ => some c
    | [] => first? ps
  | _ => none

def line (level : Nat) (content : Layout) : Layout :=
  .indent level :: content ++ [.text "\n"]

def textLine (level : Nat) (text : String) : Layout :=
  line level [.text text]

def parenthesized (wrapped : Bool) (l : Layout) : Layout :=
  if wrapped then .text "(" :: l ++ [.text ")"] else l

@[simp] theorem render_nil (width : Nat) : render width [] = "" := rfl

@[simp] theorem render_cons (width : Nat) (p : Piece) (ps : Layout) :
    render width (p :: ps) = p.render width ++ render width ps := rfl

@[simp] theorem render_append (width : Nat) (a b : Layout) :
    render width (a ++ b) = render width a ++ render width b := by
  induction a with
  | nil => simp
  | cons p ps ih =>
    rw [List.cons_append, render_cons, ih, render_cons, String.append_assoc]

end Layout

end TwoScript
