import TwoScript.Proofs.Token.Extent

/-!
# The values that tokens carry

A token carries a value exactly if it is a literal, and then one of the right type:
`Shape.Faithful`. Tokens made by hand need not be faithful, but whatever a text is, its
tokens are.
-/

namespace TwoScript

/-- The shape carries the value that its kind stands for, and no other. -/
structure Shape.Faithful (t : Shape) : Prop where
  number : (∃ x, t.literal = some (.number x)) ↔ t.kind = .number
  string : (∃ s, t.literal = some (.string s)) ↔ t.kind = .string ∨ t.kind = .template
  boolean (value : Bool) :
    t.literal = some (.boolean value) ↔ t.kind = if value then .trueWord else .falseWord
  null : t.literal = some .null ↔ t.kind = .nullWord

def Kind.isValued : Kind → Bool
  | number | string | template | trueWord | falseWord | nullWord => true
  | _ => false

/-- A shape of a kind without values is faithful if it carries nothing. -/
theorem Shape.Faithful.of_none {t : Shape} (literal : t.literal = none)
    (kind : t.kind.isValued = false) : t.Faithful := by
  have differs (other : Kind) (valued : other.isValued = true) : t.kind ≠ other := by
    rintro same
    rw [same, valued] at kind
    cases kind
  refine ⟨?_, ?_, fun value => ?_, ?_⟩
  · simp [literal, differs .number rfl]
  · simp [literal, differs .string rfl, differs .template rfl]
  · cases value <;> simp [literal, differs .trueWord rfl, differs .falseWord rfl]
  · simp [literal, differs .nullWord rfl]

/-! ## Lexemes -/

namespace Lexeme

theorem faithful_number (cs : List Char) : (number cs).shape.Faithful := by
  obtain ⟨x, literal, _⟩ := number_literal cs
  constructor <;> simp [shape, number_kind, literal]

theorem faithful_quoted (quote : Char) (cs : List Char) : (quoted quote cs).shape.Faithful := by
  cases closed : (splitQuoted quote cs).closed <;>
    constructor <;> simp [shape, quoted, closed]

theorem faithful_template (cs : List Char) : (template cs).shape.Faithful := by
  cases closed : (splitTemplate .text cs).closed <;>
    constructor <;> simp [shape, template, closed]

/-- The words for true, false and null carry what they mean, and no other keyword is a
literal. -/
theorem faithful_word (cs : List Char) : (word cs).shape.Faithful := by
  have spelled := isSpelled_word cs
  simp only [word, wordMeaning, shape] at spelled ⊢
  split at spelled
  · constructor <;> simp
  · constructor <;> simp
  · constructor <;> simp
  · rename_i kind notTrue notFalse notNull found
    refine .of_none rfl ?_
    cases kind <;> simp_all [Kind.isSpelled, Kind.isValued]
  · exact .of_none rfl rfl

theorem isValued_of_symbolPair {c d : Char} {kind : Kind} (h : symbolPair? c d = some kind) :
    kind.isValued = false := by
  unfold symbolPair? at h
  split at h <;> cases h <;> rfl

theorem isValued_of_symbol {c : Char} {kind : Kind} (h : symbol? c = some kind) :
    kind.isValued = false := by
  unfold symbol? at h
  split at h <;> cases h <;> rfl

theorem faithful_symbol (c : Char) (cs : List Char) : (symbol c cs).shape.Faithful := by
  refine .of_none (symbol_literal c cs) ?_
  simp only [shape, symbol]
  split
  · rename_i kind pair
    obtain ⟨d, _, found⟩ := Option.bind_eq_some_iff.mp pair
    exact isValued_of_symbolPair found
  · cases single : symbol? c with
    | none => rfl
    | some kind => exact isValued_of_symbol single

theorem faithful_read (c : Char) (cs : List Char) : (read c cs).shape.Faithful := by
  cases manner c with
  | number _ lexeme =>
      rw [lexeme]
      exact faithful_number _
  | word _ lexeme =>
      rw [lexeme]
      exact faithful_word _
  | quoted _ lexeme =>
      rw [lexeme]
      exact faithful_quoted _ _
  | template _ lexeme =>
      rw [lexeme]
      exact faithful_template _
  | symbol lexeme =>
      rw [lexeme]
      exact faithful_symbol _ _

end Lexeme

/-! ## Tokens -/

/-- A shape that stands at the front of some text is faithful. -/
theorem Shape.Lexed.faithful {t : Shape} (h : t.Lexed) : t.Faithful := by
  obtain ⟨c, cs, rfl⟩ := h
  exact Lexeme.faithful_read c cs

/-- Every token of a text is faithful, the one for its end included. -/
theorem faithful_of_mem {p : Place} {cs : List Char} {t : Token} (member : t ∈ tokensFrom p cs) :
    t.shape.Faithful := by
  obtain ⟨ts, whole, same⟩ := exists_tokensFrom p cs
  rw [whole, List.mem_append, List.mem_singleton] at member
  rcases member with before | rfl
  · exact (lexed_of_mem_shapes (same ▸ List.mem_map_of_mem before)).faithful
  · exact .of_none rfl rfl

end TwoScript
