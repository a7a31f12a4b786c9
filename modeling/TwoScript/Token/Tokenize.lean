import TwoScript.Token.Lexeme

/-!
# From text to tokens

`tokenize` reads a source text as tokens. The list ends with one token for the end of
the input; blanks and comments lie between tokens and leave no trace.
-/

namespace TwoScript

def endToken (p : Place) : Token :=
  { kind := .endOfFile, text := "", span := ⟨p.offset, p.offset, p.line⟩, literal := none }

def Lexeme.token (l : Lexeme) (p : Place) : Token :=
  { kind := l.kind, text := String.ofList l.chars, span := p.span l.chars,
    literal := l.literal }

/-- What follows the first lexeme is shorter than the text. -/
theorem rest_length_lt {cs rest : List Char} {c : Char}
    (h : (splitBlank false cs).2 = c :: rest) :
    (Lexeme.read c rest).rest.length < cs.length := by
  have whole := congrArg List.length (splitBlank_append false cs)
  have shorter := Lexeme.read_rest_length c rest
  rw [h, List.length_append, List.length_cons] at whole
  omega

def tokensFrom (p : Place) (cs : List Char) : List Token :=
  let p := p.after (splitBlank false cs).1
  match h : (splitBlank false cs).2 with
  | [] => [endToken p]
  | c :: rest =>
    have := rest_length_lt h
    let l := Lexeme.read c rest
    l.token p :: tokensFrom (p.after l.chars) l.rest
termination_by cs.length

def tokenize (source : String) : List Token :=
  tokensFrom .first source.toList

end TwoScript
