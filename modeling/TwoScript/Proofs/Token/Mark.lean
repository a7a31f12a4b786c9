import TwoScript.Proofs.Token.Spell
import TwoScript.Tree.Operator

/-!
# Fixed texts

Most of generated code is fixed text between the parts of a tree. Such a text is a list
of marks: words, symbols and blanks. Whether each mark ends where the next one begins
can be computed, and then the text is read as the shapes of its marks.
-/

namespace TwoScript

/-- A piece of fixed text. -/
inductive Mark where
  | word (word : String)
  | symbol (c : Char)
  | pair (c d : Char)
  | blank (c : Char)

namespace Mark

def chars : Mark → List Char
  | word w => w.toList
  | symbol c | blank c => [c]
  | pair c d => [c, d]

def shapes : Mark → List Shape
  | word w => [wordShape w]
  | symbol c => [⟨(symbol? c).getD .endOfFile, String.ofList [c], none⟩]
  | pair c d => [⟨(symbolPair? c d).getD .endOfFile, String.ofList [c, d], none⟩]
  | blank _ => []

/-- Symbols that begin no longer one. -/
def brackets : List Char :=
  ['(', ')', '{', '}', ',', ';', '.']

/-- Whether a mark ends in front of a character, or in front of any text. -/
def endsBefore : Mark → Option Char → Bool
  | word w, some next => isWord w && !isWordPart next
  | word _, none => false
  | symbol c, some next =>
    (symbol? c).isSome && (symbolPair? c next).isNone && !(c == '/' && next == '/')
  | symbol c, none => (symbol? c).isSome && brackets.contains c
  | pair c d, _ => (symbolPair? c d).isSome
  | blank c, _ => isBlank c

def fit : List Mark → Bool
  | [] => true
  | m :: ms => m.endsBefore (ms.flatMap chars).head? && fit ms

theorem symbolPair_of_mem_brackets {c : Char} (h : c ∈ brackets) (d : Char) :
    symbolPair? c d = none := by
  simp only [brackets, List.mem_cons, List.not_mem_nil, or_false] at h
  rcases h with rfl | rfl | rfl | rfl | rfl | rfl | rfl <;> rfl

/-- A mark that ends in front of a text is read as its shapes there. -/
theorem shapes_append {m : Mark} {next : List Char} (h : m.endsBefore next.head? = true)
    (rest : List Char) :
    TwoScript.shapes (m.chars ++ (next ++ rest)) = m.shapes ++ TwoScript.shapes (next ++ rest) := by
  cases m with
  | word w =>
      cases next with
      | nil => cases h
      | cons d ds =>
          simp only [List.head?_cons, endsBefore, Bool.and_eq_true, Bool.not_eq_true'] at h
          exact Spells.word w h.1 _ (WordEnds.cons h.2 _)
  | symbol c =>
      cases next with
      | nil =>
          simp only [List.head?_nil, endsBefore, Bool.and_eq_true, List.contains_iff_mem] at h
          obtain ⟨kind, found⟩ := Option.isSome_iff_exists.mp h.1
          have notSlash : c ≠ '/' := by
            rintro rfl
            exact absurd h.2 (by decide)
          simp only [chars, shapes, found, Option.getD_some]
          exact Spells.symbol found (symbolPair_of_mem_brackets h.2) notSlash _ trivial
      | cons d ds =>
          simp only [List.head?_cons, endsBefore, Bool.and_eq_true, Option.isNone_iff_eq_none,
            Bool.not_eq_true', Bool.and_eq_false_iff, beq_eq_false_iff_ne] at h
          obtain ⟨kind, found⟩ := Option.isSome_iff_exists.mp h.1.1
          simp only [chars, shapes, found, Option.getD_some]
          refine shapes_symbol found ?_ ?_
          · rintro _ ⟨⟩
            exact h.1.2
          · rintro ⟨rfl, slash⟩
            rcases h.2 with notSlash | notSlash
            · exact notSlash rfl
            · exact notSlash (Option.some.inj slash)
  | pair c d =>
      obtain ⟨kind, found⟩ := Option.isSome_iff_exists.mp h
      simp only [chars, shapes, found, Option.getD_some]
      exact shapes_symbolPair _ found
  | blank c => exact shapes_blank _ h

end Mark

/-- A text of marks that fit is read as their shapes, whatever follows it. -/
theorem Spells.marks (ms : List Mark) (h : Mark.fit ms = true) :
    Spells Anything (ms.flatMap Mark.chars) (ms.flatMap Mark.shapes) := by
  induction ms with
  | nil => exact Spells.nil
  | cons m ms ih =>
      rw [Mark.fit, Bool.and_eq_true] at h
      intro rest _
      rw [List.flatMap_cons, List.append_assoc, Mark.shapes_append h.1, ih h.2 rest trivial,
        List.flatMap_cons, List.append_assoc]

/-! ## Operators between blanks -/

def operatorMarks : List Char → List Mark
  | [c, d] => [.blank ' ', .pair c d, .blank ' ']
  | cs => .blank ' ' :: cs.map Mark.symbol ++ [.blank ' ']

theorem Spells.binaryOp (op : BinaryOp) : ∃ t : Shape, BinaryOp.ofKind? t.kind = some op ∧
    Spells Anything (' ' :: (op.symbol.toList ++ [' '])) [t] := by
  have fits : Mark.fit (operatorMarks op.symbol.toList) = true := by cases op <;> decide
  have spelled := Spells.marks _ fits
  cases op <;> exact ⟨_, rfl, spelled⟩

theorem Spells.assignOp (op : AssignOp) : ∃ t : Shape, AssignOp.ofKind? t.kind = some op ∧
    Spells Anything (' ' :: (op.symbol.toList ++ [' '])) [t] := by
  have fits : Mark.fit (operatorMarks op.symbol.toList) = true := by cases op <;> decide
  have spelled := Spells.marks _ fits
  cases op <;> exact ⟨_, rfl, spelled⟩

end TwoScript
